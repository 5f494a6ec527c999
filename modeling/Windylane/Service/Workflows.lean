import Windylane.Service.Tasks
import Windylane.Validation

/-! The workflow service, after `internal/usecase/workflow_service.go`: drafts are edited in place, and publishing
    takes a snapshot of a draft that was validated. -/

namespace Windylane

open Script

/-! ### Normalizing -/

def workflowNameMax : Nat := 255
def workflowSlugMax : Nat := 120
def workflowDescriptionMax : Nat := 2000
def workflowElementIDMax : Nat := 255

def normalizeWorkflowName (value : String) : Option String :=
  let value := trimSpace value
  if value = "" ∨ workflowNameMax < value.utf8ByteSize then none else some value

def normalizeWorkflowDescription : Option String → Option (Option String)
  | none => some none
  | some value =>
    let normalized := trimSpace value
    if workflowDescriptionMax < normalized.utf8ByteSize then none else some (some normalized)

/-- The pattern `^[a-z0-9]+(?:-[a-z0-9]+)*$`, read from the left; `word` is whether a group has begun. -/
def workflowSlugPattern : List Char → Bool → Bool
  | [], word => word
  | c :: rest, word =>
    if c = '-' then word && workflowSlugPattern rest false
    else (('a' ≤ c && c ≤ 'z') || ('0' ≤ c && c ≤ '9')) && workflowSlugPattern rest true

def validateWorkflowSlug (value : String) : Bool :=
  value ≠ "" && value.utf8ByteSize ≤ workflowSlugMax && workflowSlugPattern value.toList false

/-- The loop of `generateWorkflowSlug`: the text so far, and whether a separator is due. Letters and digits that are
    not ASCII are dropped. -/
def slugLoop (h : Host) : List Char → List Char → Bool → List Char
  | [], text, _ => text
  | c :: rest, text, separator =>
    if h.isLetterOrDigit c then
      if c.toNat ≤ 0x7f then
        slugLoop h rest (text ++ (if separator && !text.isEmpty then ['-', c] else [c])) false
      else slugLoop h rest text separator
    else slugLoop h rest text true

def generateWorkflowSlug (h : Host) (name : String) : String :=
  let text := slugLoop h (h.toLower name).toList [] false
  String.ofList (((text.dropWhile (· = '-')).reverse.dropWhile (· = '-')).reverse)

/-- The loop of `parseWorkflowDefinition` over the nodes, with the ids seen. -/
def parseNodes : List WorkflowNode → List String → Option (List WorkflowNode)
  | [], _ => some []
  | node :: rest, seen =>
    let node := { node with id := trimSpace node.id, name := trimSpace node.name }
    if node.id = "" ∨ workflowElementIDMax < node.id.utf8ByteSize ∨ node.name = "" ∨
        workflowNameMax < node.name.utf8ByteSize ∨ node.type.valid = false ∨ node.config.isNone ∨ node.id ∈ seen then none
    else (parseNodes rest (seen ++ [node.id])).map (node :: ·)

/-- The same over the edges. -/
def parseEdges (nodes : List String) : List WorkflowEdge → List String → Option (List WorkflowEdge)
  | [], _ => some []
  | edge :: rest, seen =>
    let edge := { edge with id := trimSpace edge.id, source := trimSpace edge.source, target := trimSpace edge.target }
    if edge.id = "" ∨ workflowElementIDMax < edge.id.utf8ByteSize ∨ edge.source = "" ∨ edge.target = "" ∨ edge.id ∈ seen ∨
        edge.source ∉ nodes ∨ edge.target ∉ nodes then none
    else
      let edge := { edge with condition := if edge.condition.isEmpty then .json .null else edge.condition }
      (parseEdges nodes rest (seen ++ [edge.id])).map (edge :: ·)

def parseWorkflowDefinition (h : Host) (raw : RawMessage) : Option WorkflowDefinition := do
  let definition ← if raw.isNull then none else h.decodeDefinition raw
  let nodes ← parseNodes (← definition.nodes) []
  let edges ← parseEdges (nodes.map (·.id)) (← definition.edges) []
  pure ⟨some nodes, some edges⟩

/-! ### Editing -/

structure CreateWorkflowInput where
  orgID : UUID
  name : String
  slug : String
  description : Option String
  definition : RawMessage

structure WorkflowDraft where
  name : String
  slug : String
  description : Option String
  definition : WorkflowDefinition

/-- The draft that a request asks for; `none` when the request is not valid. -/
def requestedDraft (h : Host) (input : CreateWorkflowInput) : Option WorkflowDraft := do
  let name ← normalizeWorkflowName input.name
  let slug := trimSpace input.slug
  let slug := if slug = "" then generateWorkflowSlug h name else slug
  guard (validateWorkflowSlug slug)
  let description ← normalizeWorkflowDescription input.description
  let definition ← parseWorkflowDefinition h input.definition
  pure ⟨name, slug, description, definition⟩

def newWorkflow (id orgID : UUID) (draft : WorkflowDraft) (now : Time) : Workflow where
  id := id
  orgID := orgID
  name := draft.name
  slug := draft.slug
  description := draft.description
  status := .draft
  definition := draft.definition
  createdAt := now
  updatedAt := now
  deletedAt := none

def createWorkflow (h : Host) (input : CreateWorkflowInput) : Script Workflow :=
  match requestedDraft h input with
  | none => fail .invalidInput
  | some draft => do
    let now ← now
    let id ← newUUID
    let workflow := newWorkflow id input.orgID draft now
    canvas (.createWorkflow workflow)
    pure workflow

structure WorkflowFilter where
  status : String
  cursor : String
  limit : Int

def listWorkflows (h : Host) (orgID : UUID) (filter : WorkflowFilter) : Script (Page Workflow) :=
  if filter.status ∉ ["", "draft", "published", "archived"] then fail .invalidInput
  else h.page (fun w => (w.createdAt, w.id)) filter.cursor filter.limit fun after limit =>
    canvas (.listWorkflows orgID filter.status after limit)

def getWorkflow (orgID id : UUID) : Script Workflow := canvas (.getWorkflowByID orgID id)

/-- A field that is not given is not changed; `description` is given as a value that can be absent. -/
structure UpdateWorkflowInput where
  name : Option String
  slug : Option String
  description : Option (Option String)
  definition : RawMessage

/-- The changes of an update on a workflow, in the order of the source; `none` when one is not valid. -/
def editWorkflow (h : Host) (input : UpdateWorkflowInput) (workflow : Workflow) : Option Workflow := do
  let workflow ← match input.name with
    | none => some workflow
    | some name => (normalizeWorkflowName name).map fun name => { workflow with name := name }
  let workflow ← match input.slug with
    | none => some workflow
    | some slug => if validateWorkflowSlug (trimSpace slug) then some { workflow with slug := trimSpace slug } else none
  let workflow ← match input.description with
    | none => some workflow
    | some description =>
      (normalizeWorkflowDescription description).map fun description => { workflow with description := description }
  if input.definition.isEmpty then some workflow
  else (parseWorkflowDefinition h input.definition).map fun definition => { workflow with definition := definition }

/-- Any edit makes a draft of the workflow. -/
def updateWorkflow (h : Host) (orgID id : UUID) (input : UpdateWorkflowInput) : Script Workflow := do
  if input.name.isNone ∧ input.slug.isNone ∧ input.description.isNone ∧ input.definition.isEmpty then fail .invalidInput
  else
    let workflow ← canvas (.getWorkflowByID orgID id)
    if workflow.status = .archived then fail .invalidStateTransition
    else
      match editWorkflow h input workflow with
      | none => fail .invalidInput
      | some workflow =>
        let now ← now
        let workflow := { workflow with status := .draft, updatedAt := now }
        canvas (.updateWorkflow workflow)
        pure workflow

def deleteWorkflow (orgID id : UUID) : Script Unit := do
  let now ← now
  canvas (.softDeleteWorkflow orgID id now)

/-! ### Publishing -/

def validateWorkflow (h : Host) (orgID id : UUID) : Script WorkflowValidationResult := do
  let workflow ← canvas (.getWorkflowByID orgID id)
  pure (validateWorkflowDefinition h.uuidParse workflow.definition)

structure WorkflowPublishResult where
  workflowID : UUID
  version : Int
  versionID : UUID
  status : WorkflowVersionStatus
  publishedAt : Time
deriving DecidableEq

/-- `PublishWorkflow`: what was validated is read first, and the transaction compares it with the row it locks. A
    definition that is not valid is answered as the `WorkflowValidationFailure`. -/
def publishWorkflow (h : Host) (orgID id : UUID) : Script (Except WorkflowValidationResult WorkflowPublishResult) := do
  let workflow ← canvas (.getWorkflowByID orgID id)
  let validation := validateWorkflowDefinition h.uuidParse workflow.definition
  if !validation.valid then pure (.error validation)
  else
    let publishedAt ← now
    let versionID ← newUUID
    let version ← canvas (.publishWorkflow workflow publishedAt versionID)
    pure (.ok ⟨version.workflowID, version.version, version.id, version.status, version.publishedAt⟩)

/-- `ListWorkflowVersions`, of a workflow that is there. -/
def listWorkflowVersions (orgID workflowID : UUID) : Script (List WorkflowVersionSummary) := do
  let _ ← canvas (.getWorkflowByID orgID workflowID)
  canvas (.listWorkflowVersions orgID workflowID)

def getWorkflowVersion (orgID workflowID : UUID) (version : Int) : Script WorkflowVersion :=
  if version ≤ 0 then fail .invalidInput else canvas (.getWorkflowVersion orgID workflowID version)

end Windylane
