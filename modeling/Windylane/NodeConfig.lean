import Windylane.Domain

/-! The typed configurations of workflow nodes and edges, and the condition a condition node evaluates, after
    `internal/usecase/workflow_node_config.go`. A parser answers the configuration or the text of its error. -/

namespace Windylane

def maxWorkflowDelaySeconds : Int := 7 * 24 * 60 * 60

def maxWorkflowQueueLength : Nat := 64

structure WorkflowTaskConfig where
  queue : String
  payload : RawMessage
  priority : Int
  maxRetries : Int
  timeoutSeconds : Int
deriving DecidableEq

structure WorkflowWebhookConfig where
  endpointID : String
  payload : RawMessage
deriving DecidableEq

structure WorkflowDelayConfig where
  durationSeconds : Int
deriving DecidableEq

/-- `value` is the untyped Go value, nil as `null`. -/
structure WorkflowConditionConfig where
  field : String
  operator : String
  value : Json
deriving DecidableEq

/-- `branch` is the pointer, nil as `none`. -/
structure WorkflowBranchConfig where
  branch : Option Bool
deriving DecidableEq

/-! ### Struct fields -/

def WorkflowTaskConfig.assign (c : WorkflowTaskConfig) (field : String) (v : Json) : Decoded WorkflowTaskConfig :=
  match field with
  | "queue" => assignString "workflowTaskConfig" field c (fun s => { c with queue := s }) v
  | "payload" => .ok { c with payload := .json v }
  | "priority" => assignInt "workflowTaskConfig" field c (fun n => { c with priority := n }) v
  | "max_retries" => assignInt "workflowTaskConfig" field c (fun n => { c with maxRetries := n }) v
  | "timeout_seconds" => assignInt "workflowTaskConfig" field c (fun n => { c with timeoutSeconds := n }) v
  | _ => .ok c

def WorkflowWebhookConfig.assign (c : WorkflowWebhookConfig) (field : String) (v : Json) :
    Decoded WorkflowWebhookConfig :=
  match field with
  | "endpoint_id" => assignString "workflowWebhookConfig" field c (fun s => { c with endpointID := s }) v
  | "payload" => .ok { c with payload := .json v }
  | _ => .ok c

def WorkflowDelayConfig.assign (c : WorkflowDelayConfig) (field : String) (v : Json) : Decoded WorkflowDelayConfig :=
  match field with
  | "duration_seconds" => assignInt "workflowDelayConfig" field c (fun n => { c with durationSeconds := n }) v
  | _ => .ok c

def WorkflowConditionConfig.assign (c : WorkflowConditionConfig) (field : String) (v : Json) :
    Decoded WorkflowConditionConfig :=
  match field with
  | "field" => assignString "workflowConditionConfig" field c (fun s => { c with field := s }) v
  | "operator" => assignString "workflowConditionConfig" field c (fun s => { c with operator := s }) v
  | "value" => .ok { c with value := v.normalize }
  | _ => .ok c

def WorkflowBranchConfig.assign (c : WorkflowBranchConfig) (field : String) (v : Json) : Decoded WorkflowBranchConfig :=
  match field, v with
  | "branch", .bool b => .ok { c with branch := some b }
  | "branch", .null => .ok { c with branch := none }
  | "branch", v => .error (typeError "workflowBranchConfig" field "bool" v.kind)
  | _, _ => .ok c

/-! ### Parsers -/

/-- `decodeWorkflowNodeConfig`: the map is marshalled, which orders its keys, and decoded with unknown fields
    refused. A marshalled map is a single object, so nothing follows it. -/
def decodeWorkflowNodeConfig {τ : Type} (config : Option (List (String × Json))) (fields : List String)
    (assign : τ → String → Json → Decoded τ) (zero : τ) : Except String τ :=
  match config with
  | none => .error "config must be an object"
  | some members => decodeMembers true fields assign (Json.normalizeMembers members []) zero none

def parseWorkflowTaskConfig (config : Option (List (String × Json))) : Except String WorkflowTaskConfig := do
  let result ← decodeWorkflowNodeConfig config ["queue", "payload", "priority", "max_retries", "timeout_seconds"]
    WorkflowTaskConfig.assign ⟨"", .empty, 0, 0, 0⟩
  let result := { result with queue := trimSpace result.queue }
  if result.queue = "" ∨ maxWorkflowQueueLength < result.queue.utf8ByteSize then
    throw "queue must be between 1 and 64 characters"
  if result.priority < 0 ∨ 9 < result.priority then
    throw "priority must be between 0 and 9"
  if result.maxRetries < 0 ∨ 99 < result.maxRetries then
    throw "max_retries must be between 0 and 99"
  if result.timeoutSeconds < 0 ∨ 86400 < result.timeoutSeconds then
    throw "timeout_seconds must be between 0 and 86400"
  if !result.payload.isEmpty && !result.payload.valid then
    throw "payload must be valid JSON"
  return result

def parseWorkflowWebhookConfig (config : Option (List (String × Json))) : Except String WorkflowWebhookConfig := do
  let result ← decodeWorkflowNodeConfig config ["endpoint_id", "payload"] WorkflowWebhookConfig.assign ⟨"", .empty⟩
  let result := { result with endpointID := trimSpace result.endpointID }
  if result.endpointID = "" then
    throw "endpoint_id is required"
  if !result.payload.isEmpty && !result.payload.valid then
    throw "payload must be valid JSON"
  return result

def parseWorkflowDelayConfig (config : Option (List (String × Json))) : Except String WorkflowDelayConfig := do
  let result ← decodeWorkflowNodeConfig config ["duration_seconds"] WorkflowDelayConfig.assign ⟨0⟩
  if result.durationSeconds < 0 ∨ maxWorkflowDelaySeconds < result.durationSeconds then
    throw ("duration_seconds must be between 0 and " ++ toString maxWorkflowDelaySeconds)
  return result

/-- `config["value"]` is looked up in the map itself, where the key's case counts. -/
def parseWorkflowConditionConfig (config : Option (List (String × Json))) : Except String WorkflowConditionConfig := do
  let result ← decodeWorkflowNodeConfig config ["field", "operator", "value"] WorkflowConditionConfig.assign ⟨"", "", .null⟩
  let result := { result with field := trimSpace result.field, operator := trimSpace result.operator }
  if !("input.".toList.isPrefixOf result.field.toList) || result.field.utf8ByteSize ≤ "input.".utf8ByteSize then
    throw "field must start with input."
  if result.operator = "equals" ∨ result.operator = "not_equals" then
    if ((config.getD []).lookup "value").isNone then
      throw "value is required for equals and not_equals"
    return result
  else if result.operator = "exists" then
    return result
  else
    throw "operator must be equals, not_equals, or exists"

/-- `parseWorkflowBranch`: no branch for an absent or null condition; otherwise the front of the text must be
    an object that sets `branch`. -/
def parseWorkflowBranch (condition : RawMessage) : Except String (Option Bool) :=
  if condition.isNull then .ok none
  else
    match condition.decode with
    | some (.obj members) =>
      match decodeMembers true ["branch"] WorkflowBranchConfig.assign members ⟨none⟩ none with
      | .ok ⟨some branch⟩ => .ok (some branch)
      | _ => .error "condition edge must contain a boolean branch"
    | _ => .error "condition edge must contain a boolean branch"

/-! ### Conditions -/

/-- Follow the parts of a path through nested objects. -/
def lookupPath : List String → Json → Option Json
  | [], current => some current
  | part :: rest, .obj members =>
    match members.lookup part with
    | some next => lookupPath rest next
    | none => none
  | _ :: _, _ => none

/-- `strings.Split(s, ".")`. -/
def splitDots (s : String) : List String := (s.toList.splitOn '.').map String.ofList

/-- `strings.TrimPrefix`. -/
def trimPrefix (s start : String) : String :=
  if start.toList.isPrefixOf s.toList then String.ofList (s.toList.drop start.toList.length) else s

/-- `evaluateWorkflowCondition`. -/
def evaluateWorkflowCondition (config : WorkflowConditionConfig) (input : RawMessage) : Except String Bool :=
  let root := if input.isEmpty then some (.obj []) else input.unmarshal
  match root with
  | none => .error "invalid character in input"
  | some root =>
    let found := lookupPath (splitDots (trimPrefix config.field "input.")) root
    match config.operator with
    | "exists" => .ok found.isSome
    | "equals" => .ok (found == some config.value)
    | "not_equals" => .ok (found != some config.value)
    | _ => .error "unsupported condition operator"

/-! ### What the parsers guarantee -/

/-- An accepted condition configuration has an operator that evaluation supports. -/
theorem parseWorkflowConditionConfig_operator {config : Option (List (String × Json))} {c : WorkflowConditionConfig}
    (h : parseWorkflowConditionConfig config = .ok c) :
    c.operator = "equals" ∨ c.operator = "not_equals" ∨ c.operator = "exists" := by
  unfold parseWorkflowConditionConfig at h
  cases hd : decodeWorkflowNodeConfig config ["field", "operator", "value"] WorkflowConditionConfig.assign
      ⟨"", "", .null⟩ with
  | error e => rw [hd] at h; cases h
  | ok result =>
    rw [hd] at h
    simp only [bind, Except.bind, pure, Except.pure, throw, throwThe, MonadExceptOf.throw] at h
    split at h
    · cases h
    · split at h
      · next hop =>
        split at h
        · cases h
        · cases h
          exact hop.elim .inl fun h => .inr (.inl h)
      · split at h
        · next hop =>
          cases h
          exact .inr (.inr hop)
        · cases h

/-- The payload that a task configuration was accepted with. -/
theorem parseWorkflowTaskConfig_payload {config : Option (List (String × Json))} {c : WorkflowTaskConfig}
    (parsed : parseWorkflowTaskConfig config = .ok c) :
    c.payload.isEmpty = true ∨ c.payload.valid = true := by
  unfold parseWorkflowTaskConfig at parsed
  cases decoded : decodeWorkflowNodeConfig config ["queue", "payload", "priority", "max_retries", "timeout_seconds"]
      WorkflowTaskConfig.assign ⟨"", .empty, 0, 0, 0⟩ with
  | error e => rw [decoded] at parsed; cases parsed
  | ok result =>
    rw [decoded] at parsed
    simp only [bind, Except.bind, pure, Except.pure, throw, throwThe, MonadExceptOf.throw] at parsed
    repeat' split at parsed
    all_goals cases parsed
    rename_i unbroken
    simp only [Bool.and_eq_true, Bool.not_eq_true', not_and, Bool.not_eq_false] at unbroken
    by_cases empty : result.payload.isEmpty = true
    · exact Or.inl empty
    · exact Or.inr (unbroken (by simpa using empty))

/-- Evaluation fails on a broken input or an unsupported operator only. -/
theorem evaluateWorkflowCondition_ok {config : WorkflowConditionConfig} {input : RawMessage}
    (hop : config.operator = "equals" ∨ config.operator = "not_equals" ∨ config.operator = "exists")
    (hin : input.isEmpty = true ∨ input.valid = true) : ∃ b, evaluateWorkflowCondition config input = .ok b := by
  have hroot : ∃ root, (if input.isEmpty then some (.obj []) else input.unmarshal) = some root := by
    cases input with
    | empty => exact ⟨_, rfl⟩
    | json value => exact ⟨_, rfl⟩
    | malformed first => rcases hin with h | h <;> cases h
  obtain ⟨root, hroot⟩ := hroot
  simp only [evaluateWorkflowCondition, hroot]
  rcases hop with h | h | h <;> rw [h] <;> exact ⟨_, rfl⟩

end Windylane
