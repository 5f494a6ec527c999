import Windylane.Dashboard.Editor
import Windylane.Theorems.Ingestion
import Windylane.Theorems.Payloads

/-! What the editor of the dashboard does to a definition that the backend accepts. -/

namespace Windylane

/-! ### The keys of a map -/

namespace Json

theorem normalizeMembers_ordered (members : List (String × Json)) {seen : List (String × Json)} (ordered : Ordered seen) :
    Ordered (normalizeMembers members seen) := by
  induction members generalizing seen with
  | nil => exact ordered
  | cons m rest ih => exact ih (setMember_ordered ordered)

theorem normalizeMembers_nodup (members : List (String × Json)) : ((normalizeMembers members []).map (·.1)).Nodup := by
  have ordered : Ordered (normalizeMembers members []) := normalizeMembers_ordered members List.Pairwise.nil
  rw [List.Nodup, List.pairwise_map]
  exact ordered.imp fun less => less.ne

theorem mem_normalizeMembers {members seen : List (String × Json)} {m : String × Json} (mem : m ∈ normalizeMembers members seen) :
    m ∈ seen ∨ ∃ v, (m.1, v) ∈ members ∧ m.2 = v.normalize := by
  induction members generalizing seen with
  | nil => exact Or.inl mem
  | cons first rest ih =>
    rcases ih mem with old | ⟨v, hv, same⟩
    · rcases mem_setMember old with rfl | old
      · exact Or.inr ⟨first.2, List.mem_cons_self, rfl⟩
      · exact Or.inl old
    · exact Or.inr ⟨v, List.mem_cons_of_mem _ hv, same⟩

theorem key_setMember {key k : String} {value : Json} {seen : List (String × Json)} (given : k = key ∨ k ∈ seen.map (·.1)) :
    k ∈ (setMember key value seen).map (·.1) := by
  induction seen with
  | nil => simpa [setMember] using given
  | cons first rest ih =>
    unfold setMember
    split
    · simpa using given
    split
    · rename_i same
      simpa [same] using given
    · rcases given with rfl | given
      · exact List.mem_cons_of_mem _ (ih (Or.inl rfl))
      · rcases List.mem_cons.1 given with rfl | given
        · exact List.mem_cons_self
        · exact List.mem_cons_of_mem _ (ih (Or.inr given))

/-- No key is lost. -/
theorem key_normalizeMembers {k : String} {members : List (String × Json)} (seen : List (String × Json))
    (given : k ∈ members.map (·.1) ∨ k ∈ seen.map (·.1)) : k ∈ (normalizeMembers members seen).map (·.1) := by
  induction members generalizing seen with
  | nil => exact given.resolve_left List.not_mem_nil
  | cons first rest ih =>
    rw [List.map_cons, List.mem_cons, or_comm, ← or_assoc, or_comm, or_comm] at given
    rcases given with given | later
    · exact ih _ (Or.inr (key_setMember (given.symm)))
    · exact ih _ (Or.inl later)

theorem mem_of_lookup {k : String} {v : Json} {members : List (String × Json)} (found : members.lookup k = some v) :
    (k, v) ∈ members := by
  obtain ⟨before, after, rfl, -⟩ := List.lookup_eq_some_iff.1 found
  exact List.mem_append_right _ List.mem_cons_self

theorem lookup_isSome_iff {k : String} {members : List (String × Json)} :
    (members.lookup k).isSome = true ↔ k ∈ members.map (·.1) := by
  constructor
  · intro found
    obtain ⟨v, found⟩ := Option.isSome_iff_exists.1 found
    exact List.mem_map.2 ⟨_, mem_of_lookup found, rfl⟩
  · intro given
    obtain ⟨m, hm, rfl⟩ := List.mem_map.1 given
    rw [Option.isSome_iff_ne_none, Ne, List.lookup_eq_none_iff]
    exact fun none => by simpa using none m hm

end Json

namespace Dashboard

/-! ### Opening and saving -/

/-- A node but for its position. -/
def Node.unplaced (n : Node) : Node := { n with position := none }

/-- What the editor saves when it has opened a definition. -/
def reopened (definition : Definition) (errors : List ValidationError) : Definition :=
  editorToDefinition (definitionToEditor definition errors)

theorem reopened_nodes (definition : Definition) (errors : List ValidationError) :
    (reopened definition errors).nodes.map Node.unplaced = definition.nodes.map Node.unplaced := by
  simp only [reopened, editorToDefinition, definitionToEditor, List.map_map]
  refine List.ext_getElem (by simp) fun i _ _ => ?_
  simp [editorNode, Node.unplaced]

/-- A condition that is null or sets a branch and nothing else. -/
def PlainCondition (condition : Json) : Prop := condition = .null ∨ ∃ branch, condition = .obj [("branch", .bool branch)]

theorem reopened_edges {definition : Definition} (plain : ∀ e ∈ definition.edges, PlainCondition e.condition)
    (errors : List ValidationError) : (reopened definition errors).edges = definition.edges := by
  simp only [reopened, editorToDefinition, definitionToEditor]
  refine List.ext_getElem (by simp) fun i _ hi => ?_
  have given := plain _ (List.getElem_mem hi)
  rw [List.getElem_map, List.getElem_mapIdx]
  generalize definition.edges[i] = edge at given ⊢
  obtain ⟨id, source, target, condition⟩ := edge
  rcases given with rfl | ⟨branch, rfl⟩ <;> rfl

/-- A trigger, a gate and a task behind the branch that `condition` sets. -/
def gateDefinition (condition : RawMessage) : WorkflowDefinition where
  nodes := some [
    ⟨"start", .trigger, "Start", some []⟩,
    ⟨"gate", .condition, "Gate", some [("field", .str "input.go"), ("operator", .str "exists")]⟩,
    ⟨"work", .task, "Work", some [("queue", .str "jobs")]⟩]
  edges := some [⟨"e1", "start", "gate", .json .null⟩, ⟨"e2", "gate", "work", condition⟩]

/-- A host that reads every text as `definition`. -/
def readingHost (definition : WorkflowDefinition) : Host := { sampleHost with decodeDefinition := fun _ => some definition }

theorem trimSpace_empty : trimSpace "" = "" := trimSpace_eq_empty.2 (by simp)

theorem jsTrim_ne_empty {s : String} (text : ∃ c ∈ s.toList, isSpace c = false) (unmarked : '\uFEFF' ∉ s.toList) :
    jsTrim s ≠ "" := by
  intro blank
  obtain ⟨c, hc, kept⟩ := text
  rw [jsTrim, String.ofList_eq_empty_iff, trimmed_eq_nil] at blank
  have space := blank c hc
  simp only [isJSSpace, kept, Bool.false_and, Bool.false_or, decide_eq_true_eq] at space
  have mark : c = '\uFEFF' := Char.ext (UInt32.toNat_inj.1 space)
  exact unmarked (mark ▸ hc)

/-- The fields of a configuration that the editor checks. -/
def checkedFields : WorkflowNodeType → List String
  | .task => ["queue"]
  | .webhook => ["endpoint_id"]
  | .delay => ["duration_seconds"]
  | .condition => ["field", "operator"]
  | .trigger | .other _ => []

/-- A node that the editor reads as the backend does. The backend takes any case for a field, 0 for a duration that is
    missing, and white space off the texts of a condition; the editor also takes U+FEFF for white space. -/
structure ReadAlike (n : WorkflowNode) : Prop where
  id : '\uFEFF' ∉ n.id.toList
  name : '\uFEFF' ∉ n.name.toList
  spelled : ∀ field ∈ checkedFields n.type, ∀ m ∈ n.config.getD [], foldName m.1 = foldName field → m.1 = field
  duration : n.type = .delay → ∃ m ∈ n.config.getD [], m.1 = "duration_seconds"
  texts : ∀ m ∈ n.config.getD [], m.1 ∈ checkedFields n.type → ∀ s, m.2 = .str s →
    if n.type = .condition then trimSpace s = s else '\uFEFF' ∉ s.toList

/-- `get` reads what `field` sets, and no other field sets it. -/
structure Sets {τ β : Type} (assign : τ → String → Json → Decoded τ) (field : String) (get : τ → β) (reads : Json → β → Prop) :
    Prop where
  own : ∀ c v c', assign c field v = .ok c' → reads v (get c') ∨ v = .null ∧ get c' = get c
  others : ∀ c other v c', other ≠ field → assign c other v = .ok c' → get c' = get c

/-- A field that was decoded strictly, under its own key only, is read from that key. -/
theorem Sets.decoded {τ β : Type} {fields : List String} {assign : τ → String → Json → Decoded τ} {get : τ → β}
    {field : String} {reads : Json → β → Prop} (sets : Sets assign field get reads) (known : field ∈ fields)
    {members : List (String × Json)} (spelled : ∀ m ∈ members, foldName m.1 = foldName field → m.1 = field)
    (distinct : (members.map (·.1)).Nodup) {c result : τ} (decoded : decodeMembers true fields assign members c none = .ok result) :
    (members.lookup field = none → get result = get c) ∧
      ∀ v, members.lookup field = some v → reads v (get result) ∨ v = .null ∧ get result = get c := by
  induction members generalizing c with
  | nil =>
    cases decoded
    exact ⟨fun _ => rfl, by simp⟩
  | cons m rest ih =>
    obtain ⟨key, member⟩ := m
    obtain ⟨new, distinct⟩ := List.nodup_cons.1 distinct
    have ih {c} := ih (fun m hm => spelled m (List.mem_cons_of_mem _ hm)) distinct (c := c)
    simp only [decodeMembers] at decoded
    cases named : fieldFor fields key with
    | none =>
      simp only [named, if_true, Option.none_or, decodeMembers_error] at decoded
      cases decoded
    | some other =>
      simp only [named] at decoded
      cases assigned : assign c other member with
      | error e =>
        simp only [assigned, Option.none_or, decodeMembers_error] at decoded
        cases decoded
      | ok c' =>
        simp only [assigned] at decoded
        by_cases this : key = field
        · subst this
          rw [fieldFor, if_pos known, Option.some.injEq] at named
          subst named
          have gone : rest.lookup key = none := by
            rw [List.lookup_eq_none_iff]
            exact fun m hm => by simpa using fun same : key = m.1 => new (List.mem_map.2 ⟨m, hm, same.symm⟩)
          have last : get result = get c' := (ih decoded).1 gone
          rw [List.lookup_cons_self]
          refine ⟨by simp, fun v given => ?_⟩
          cases given
          rw [last]
          exact sets.own c member c' assigned
        · have different : other ≠ field := by
            rintro rfl
            unfold fieldFor at named
            split at named
            · exact this (Option.some.inj named)
            · have folded := List.find?_some named
              exact this (spelled (key, member) List.mem_cons_self (by simpa using Eq.symm (by simpa using folded)))
          have kept := sets.others c other member c' different assigned
          rw [List.lookup_cons, beq_false_of_ne (Ne.symm this), ← kept]
          exact ih decoded

theorem assignString_ok {τ : Type} {struct field : String} {c c' : τ} {set : String → τ} {v : Json}
    (assigned : assignString struct field c set v = .ok c') : (∃ s, v = .str s ∧ c' = set s) ∨ v = .null ∧ c' = c := by
  cases v with
  | str s => exact Or.inl ⟨s, rfl, (Except.ok.inj assigned).symm⟩
  | null => exact Or.inr ⟨rfl, (Except.ok.inj assigned).symm⟩
  | bool | num | arr | obj => cases assigned

theorem assignInt_ok {τ : Type} {struct field : String} {c c' : τ} {set : Int → τ} {v : Json}
    (assigned : assignInt struct field c set v = .ok c') :
    (∃ q, v = .num q ∧ q.den = 1 ∧ c' = set q.num) ∨ v = .null ∧ c' = c := by
  cases v with
  | num q =>
    simp only [assignInt] at assigned
    split at assigned
    · rename_i whole
      exact Or.inl ⟨q, rfl, whole.1, (Except.ok.inj assigned).symm⟩
    · cases assigned
  | null => exact Or.inr ⟨rfl, (Except.ok.inj assigned).symm⟩
  | bool | str | arr | obj => cases assigned

/-- The parsers decode the map and go on with the result. -/
theorem decodeWorkflowNodeConfig_bind {τ : Type} {config : Option (List (String × Json))} {fields : List String}
    {assign : τ → String → Json → Decoded τ} {zero c : τ} {next : τ → Except String τ}
    (parsed : (decodeWorkflowNodeConfig config fields assign zero >>= next) = .ok c) :
    ∃ members result, config = some members ∧
      decodeMembers true fields assign (Json.normalizeMembers members []) zero none = .ok result ∧ next result = .ok c := by
  cases config with
  | none => cases parsed
  | some members =>
    simp only [decodeWorkflowNodeConfig] at parsed
    cases decoded : decodeMembers true fields assign (Json.normalizeMembers members []) zero none with
    | error e =>
      rw [decoded] at parsed
      cases parsed
    | ok result =>
      rw [decoded] at parsed
      exact ⟨members, result, rfl, decoded, parsed⟩

/-- A text that was decoded and is not empty stands under its key. -/
theorem Sets.text {τ : Type} {fields : List String} {assign : τ → String → Json → Decoded τ} {get : τ → String}
    {field : String} (sets : Sets assign field get fun v s => v = .str s) (known : field ∈ fields)
    {members : List (String × Json)} (spelled : ∀ m ∈ members, foldName m.1 = foldName field → m.1 = field)
    (distinct : (members.map (·.1)).Nodup) {c result : τ} (decoded : decodeMembers true fields assign members c none = .ok result)
    (unset : get c = "") (text : get result ≠ "") : members.lookup field = some (.str (get result)) := by
  obtain ⟨absent, given⟩ := sets.decoded known spelled distinct decoded
  cases found : members.lookup field with
  | none => exact absurd ((absent found).trans unset) text
  | some v =>
    rcases given v found with rfl | ⟨-, same⟩
    · rfl
    · exact absurd (same.trans unset) text

theorem task_sets_queue : Sets WorkflowTaskConfig.assign "queue" (·.queue) fun v s => v = .str s where
  own c v c' assigned := by
    rcases assignString_ok assigned with ⟨s, rfl, rfl⟩ | ⟨rfl, rfl⟩
    · exact Or.inl rfl
    · exact Or.inr ⟨rfl, rfl⟩
  others c other v c' ne assigned := by
    unfold WorkflowTaskConfig.assign at assigned
    split at assigned
    · exact absurd rfl ne
    · cases assigned
      rfl
    · rcases assignInt_ok assigned with ⟨_, _, _, rfl⟩ | ⟨_, rfl⟩ <;> rfl
    · rcases assignInt_ok assigned with ⟨_, _, _, rfl⟩ | ⟨_, rfl⟩ <;> rfl
    · rcases assignInt_ok assigned with ⟨_, _, _, rfl⟩ | ⟨_, rfl⟩ <;> rfl
    · cases assigned
      rfl

theorem webhook_sets_endpoint : Sets WorkflowWebhookConfig.assign "endpoint_id" (·.endpointID) fun v s => v = .str s where
  own c v c' assigned := by
    rcases assignString_ok assigned with ⟨s, rfl, rfl⟩ | ⟨rfl, rfl⟩
    · exact Or.inl rfl
    · exact Or.inr ⟨rfl, rfl⟩
  others c other v c' ne assigned := by
    unfold WorkflowWebhookConfig.assign at assigned
    split at assigned
    · exact absurd rfl ne
    · cases assigned
      rfl
    · cases assigned
      rfl

theorem delay_sets_duration : Sets WorkflowDelayConfig.assign "duration_seconds" (·.durationSeconds)
    fun v seconds => ∃ q : Rat, v = .num q ∧ q.den = 1 ∧ q.num = seconds where
  own c v c' assigned := by
    rcases assignInt_ok assigned with ⟨q, rfl, whole, rfl⟩ | ⟨rfl, rfl⟩
    · exact Or.inl ⟨q, rfl, whole, rfl⟩
    · exact Or.inr ⟨rfl, rfl⟩
  others c other v c' ne assigned := by
    unfold WorkflowDelayConfig.assign at assigned
    split at assigned
    · exact absurd rfl ne
    · cases assigned
      rfl

theorem condition_sets_field : Sets WorkflowConditionConfig.assign "field" (·.field) fun v s => v = .str s where
  own c v c' assigned := by
    rcases assignString_ok assigned with ⟨s, rfl, rfl⟩ | ⟨rfl, rfl⟩
    · exact Or.inl rfl
    · exact Or.inr ⟨rfl, rfl⟩
  others c other v c' ne assigned := by
    unfold WorkflowConditionConfig.assign at assigned
    split at assigned
    · exact absurd rfl ne
    · rcases assignString_ok assigned with ⟨_, _, rfl⟩ | ⟨_, rfl⟩ <;> rfl
    · cases assigned
      rfl
    · cases assigned
      rfl

theorem condition_sets_operator : Sets WorkflowConditionConfig.assign "operator" (·.operator) fun v s => v = .str s where
  own c v c' assigned := by
    rcases assignString_ok assigned with ⟨s, rfl, rfl⟩ | ⟨rfl, rfl⟩
    · exact Or.inl rfl
    · exact Or.inr ⟨rfl, rfl⟩
  others c other v c' ne assigned := by
    unfold WorkflowConditionConfig.assign at assigned
    split at assigned
    · rcases assignString_ok assigned with ⟨_, _, rfl⟩ | ⟨_, rfl⟩ <;> rfl
    · exact absurd rfl ne
    · cases assigned
      rfl
    · cases assigned
      rfl

/-- What the backend checks of a condition, over the texts without white space around them. -/
theorem parseWorkflowConditionConfig_accepted {members : List (String × Json)} {c : WorkflowConditionConfig}
    (parsed : parseWorkflowConditionConfig (some members) = .ok c) :
    ∃ result, decodeMembers true ["field", "operator", "value"] WorkflowConditionConfig.assign
        (Json.normalizeMembers members []) ⟨"", "", .null⟩ none = .ok result ∧
      "input.".toList.isPrefixOf (trimSpace result.field).toList = true ∧
      (trimSpace result.operator ∈ ["equals", "not_equals"] ∧ (members.lookup "value").isSome = true ∨
        trimSpace result.operator = "exists") := by
  unfold parseWorkflowConditionConfig at parsed
  obtain ⟨_, result, given, decoded, accepted⟩ := decodeWorkflowNodeConfig_bind parsed
  cases given
  simp only [Option.getD_some, bind, Except.bind, pure, Except.pure, throw, throwThe, MonadExceptOf.throw] at accepted
  split at accepted
  · cases accepted
  rename_i begun
  simp only [Bool.or_eq_true, Bool.not_eq_true', not_or, Bool.not_eq_false] at begun
  refine ⟨result, decoded, begun.1, ?_⟩
  split at accepted
  · rename_i comparing
    split at accepted
    · cases accepted
    · rename_i given
      exact Or.inl ⟨by simpa using comparing, by simpa [← Option.isSome_iff_ne_none] using given⟩
  · split at accepted
    · rename_i present
      exact Or.inr present
    · cases accepted

section
variable {n : WorkflowNode} (alike : ReadAlike n) {members : List (String × Json)} (config : n.config = some members)
include alike config

theorem ReadAlike.spelled_map {field : String} (checked : field ∈ checkedFields n.type) :
    ∀ m ∈ Json.normalizeMembers members [], foldName m.1 = foldName field → m.1 = field := by
  intro m hm same
  obtain ⟨v, hv, -⟩ := (Json.mem_normalizeMembers hm).resolve_left List.not_mem_nil
  exact alike.spelled field checked (m.1, v) (by rw [config]; exact hv) same

theorem ReadAlike.text_map {field s : String} (checked : field ∈ checkedFields n.type)
    (found : (Json.normalizeMembers members []).lookup field = some (.str s)) :
    if n.type = .condition then trimSpace s = s else '\uFEFF' ∉ s.toList := by
  obtain ⟨v, hv, same⟩ := (Json.mem_normalizeMembers (Json.mem_of_lookup found)).resolve_left List.not_mem_nil
  refine alike.texts (field, v) (by rw [config]; exact hv) checked s ?_
  cases v <;> cases same
  rfl

/-- A text that is not blank for the backend is not blank for the editor. -/
theorem ReadAlike.filled {numbers : JSNumbers} {τ : Type} {fields : List String} {assign : τ → String → Json → Decoded τ}
    {get : τ → String} {field : String} (sets : Sets assign field get fun v s => v = .str s) (known : field ∈ fields)
    (checked : field ∈ checkedFields n.type) (type : n.type ≠ .condition) {c result : τ}
    (decoded : decodeMembers true fields assign (Json.normalizeMembers members []) c none = .ok result) (unset : get c = "")
    (text : trimSpace (get result) ≠ "") :
    jsTrim (textOf numbers (property field (.obj (Json.normalizeMembers members [])))) ≠ "" := by
  have found := sets.text known (alike.spelled_map config checked) (Json.normalizeMembers_nodup members) decoded unset
    (fun empty => text (by rw [empty, trimSpace_empty]))
  have unmarked := alike.text_map config checked found
  rw [if_neg type] at unmarked
  simp only [property, found, textOf, jsString]
  exact jsTrim_ne_empty (by simpa [trimSpace_eq_empty] using text) unmarked

theorem ReadAlike.task {numbers : JSNumbers} {c : WorkflowTaskConfig} (type : n.type = .task)
    (parsed : parseWorkflowTaskConfig n.config = .ok c) :
    validateConfig numbers .task (.obj (Json.normalizeMembers members [])) = "" := by
  unfold parseWorkflowTaskConfig at parsed
  obtain ⟨members', result, given, decoded, accepted⟩ := decodeWorkflowNodeConfig_bind parsed
  cases config.symm.trans given
  have text : trimSpace result.queue ≠ "" := by
    intro blank
    simp [blank, throw, throwThe, MonadExceptOf.throw, bind, Except.bind] at accepted
  exact if_neg (alike.filled config task_sets_queue (by simp) (by simp [type, checkedFields]) (by simp [type]) decoded rfl text)

theorem ReadAlike.webhook {numbers : JSNumbers} {c : WorkflowWebhookConfig} (type : n.type = .webhook)
    (parsed : parseWorkflowWebhookConfig n.config = .ok c) :
    validateConfig numbers .webhook (.obj (Json.normalizeMembers members [])) = "" := by
  unfold parseWorkflowWebhookConfig at parsed
  obtain ⟨members', result, given, decoded, accepted⟩ := decodeWorkflowNodeConfig_bind parsed
  cases config.symm.trans given
  have text : trimSpace result.endpointID ≠ "" := by
    intro blank
    simp [blank, throw, throwThe, MonadExceptOf.throw, bind, Except.bind] at accepted
  exact if_neg (alike.filled config webhook_sets_endpoint (by simp) (by simp [type, checkedFields]) (by simp [type]) decoded rfl text)

theorem ReadAlike.delay {numbers : JSNumbers} {c : WorkflowDelayConfig} (type : n.type = .delay)
    (parsed : parseWorkflowDelayConfig n.config = .ok c) :
    validateConfig numbers .delay (.obj (Json.normalizeMembers members [])) = "" := by
  unfold parseWorkflowDelayConfig at parsed
  obtain ⟨members', result, given, decoded, accepted⟩ := decodeWorkflowNodeConfig_bind parsed
  cases config.symm.trans given
  have range : 0 ≤ result.durationSeconds ∧ result.durationSeconds ≤ 604800 := by
    split at accepted
    · cases accepted
    · rename_i range
      simpa [maxWorkflowDelaySeconds, not_or] using range
  have here : "duration_seconds" ∈ checkedFields n.type := by simp [type, checkedFields]
  obtain ⟨m, hm, key⟩ := alike.duration type
  replace hm : m ∈ members := by simpa [config] using hm
  obtain ⟨v, found⟩ := Option.isSome_iff_exists.1 (Json.lookup_isSome_iff.2
    (Json.key_normalizeMembers [] (Or.inl (List.mem_map.2 ⟨m, hm, key⟩))))
  rcases (delay_sets_duration.decoded (by simp) (alike.spelled_map config here) (Json.normalizeMembers_nodup members) decoded).2 v found with
    ⟨q, rfl, whole, same⟩ | ⟨rfl, -⟩
  · have value : q = (result.durationSeconds : Rat) := by rw [← same, (Rat.den_eq_one_iff q).1 whole]
    simp only [validateConfig, property, found, numberOf]
    refine if_neg ?_
    rintro (fraction | low | high)
    · exact fraction whole
    · rw [value] at low
      exact absurd (by exact_mod_cast low) (not_lt.2 range.1)
    · rw [value] at high
      exact absurd (by exact_mod_cast high) (not_lt.2 range.2)
  · simp only [validateConfig, property, found, numberOf]
    exact if_neg (by decide +kernel)

theorem ReadAlike.condition {numbers : JSNumbers} {c : WorkflowConditionConfig} (type : n.type = .condition)
    (parsed : parseWorkflowConditionConfig n.config = .ok c) :
    validateConfig numbers .condition (.obj (Json.normalizeMembers members [])) = "" := by
  rw [config] at parsed
  obtain ⟨result, decoded, start, operator⟩ := parseWorkflowConditionConfig_accepted parsed
  have fieldHere : "field" ∈ checkedFields n.type := by simp [type, checkedFields]
  have operatorHere : "operator" ∈ checkedFields n.type := by simp [type, checkedFields]
  have distinct := Json.normalizeMembers_nodup members
  have field := condition_sets_field.text (by simp) (alike.spelled_map config fieldHere) distinct decoded rfl fun empty => by
    rw [empty, trimSpace_empty] at start
    cases start
  have operatorText := condition_sets_operator.text (by simp) (alike.spelled_map config operatorHere) distinct decoded rfl
    fun empty => by
      rw [empty, trimSpace_empty] at operator
      simp at operator
  have fieldSame := alike.text_map config fieldHere field
  have operatorSame := alike.text_map config operatorHere operatorText
  rw [if_pos type] at fieldSame operatorSame
  rw [fieldSame] at start
  rw [operatorSame] at operator
  simp only [validateConfig, property, field, operatorText, textOf, jsString, start]
  rcases operator with ⟨operator, given⟩ | operator
  · have value := Json.lookup_isSome_iff.2 (Json.key_normalizeMembers [] (Or.inl (Json.lookup_isSome_iff.1 given)))
    rw [Option.isSome_iff_ne_none] at value
    simp only [List.mem_cons, List.not_mem_nil, or_false] at operator
    rcases operator with operator | operator <;> simp [operator, value]
  · simp [operator]

end

/-- A configuration that the backend accepts passes the editor's check. -/
theorem ReadAlike.config_accepted {n : WorkflowNode} (alike : ReadAlike n) {uuidParse : String → Option UUID}
    (accepted : ConfigAccepted uuidParse n) (given : n.config ≠ none) (numbers : JSNumbers) :
    validateConfig numbers n.type (.obj (Json.normalizeMembers (n.config.getD []) [])) = "" := by
  obtain ⟨members, config⟩ := Option.ne_none_iff_exists'.1 given
  rw [config, Option.getD_some]
  cases type : n.type with
  | trigger | other => rfl
  | task =>
    simp only [ConfigAccepted, type] at accepted
    obtain ⟨c, parsed⟩ := accepted
    exact alike.task config type parsed
  | webhook =>
    simp only [ConfigAccepted, type] at accepted
    obtain ⟨c, parsed, -⟩ := accepted
    exact alike.webhook config type parsed
  | delay =>
    simp only [ConfigAccepted, type] at accepted
    obtain ⟨c, parsed⟩ := accepted
    exact alike.delay config type parsed
  | condition =>
    simp only [ConfigAccepted, type] at accepted
    obtain ⟨c, parsed⟩ := accepted
    exact alike.condition config type parsed

theorem draftNodes_eq_nil {numbers : JSNumbers} {nodes : List Node} {seen : List String}
    (fine : ∀ n ∈ nodes, jsTrim n.id ≠ "" ∧ jsTrim n.name ≠ "" ∧ validateConfig numbers n.type n.config = "")
    (distinct : (nodes.map (·.id)).Nodup) (new : ∀ n ∈ nodes, n.id ∉ seen) : draftNodes numbers nodes seen = [] := by
  induction nodes generalizing seen with
  | nil => rfl
  | cons n rest ih =>
    obtain ⟨id, name, config⟩ := fine n List.mem_cons_self
    obtain ⟨first, distinct⟩ := List.nodup_cons.1 distinct
    rw [draftNodes, if_neg id, if_neg (new n List.mem_cons_self), if_neg name, if_pos config,
      ih (fun m hm => fine m (List.mem_cons_of_mem _ hm)) distinct fun m hm => ?_]
    · rfl
    · rw [List.mem_append, List.mem_singleton, not_or]
      exact ⟨new m (List.mem_cons_of_mem _ hm), fun same => first (List.mem_map.2 ⟨m, hm, same⟩)⟩

theorem draftEdges_eq_nil {edges : List Edge} {pairs : List String} (proper : ∀ e ∈ edges, e.source ≠ e.target)
    (distinct : (edges.map fun e => e.source ++ "\x00" ++ e.target).Nodup)
    (new : ∀ e ∈ edges, e.source ++ "\x00" ++ e.target ∉ pairs) : draftEdges edges pairs = [] := by
  induction edges generalizing pairs with
  | nil => rfl
  | cons e rest ih =>
    obtain ⟨first, distinct⟩ := List.nodup_cons.1 distinct
    rw [draftEdges, if_neg (proper e List.mem_cons_self), if_neg (new e List.mem_cons_self),
      ih (fun m hm => proper m (List.mem_cons_of_mem _ hm)) distinct fun m hm => ?_]
    · rfl
    · rw [List.mem_append, List.mem_singleton, not_or]
      exact ⟨new m (List.mem_cons_of_mem _ hm), fun same => first (List.mem_map.2 ⟨m, hm, same⟩)⟩

/-- No pair of ends repeats in a definition that passed the check. -/
theorem edgePairs_of_valid {uuidParse : String → Option UUID} {d : WorkflowDefinition}
    (valid : (validateWorkflowDefinition uuidParse d).valid = true) : (d.edgeList.map edgePair).Nodup := by
  simp only [validateWorkflowDefinition, List.isEmpty_iff, List.append_eq_nil_iff, addErrorIf_eq_nil] at valid
  obtain ⟨⟨⟨⟨-, scanned⟩, -⟩, -⟩, -⟩ := valid
  obtain ⟨-, -, -, pairs, -⟩ := scanEdges_errors.1 scanned
  exact pairs

/-- A trigger and a delay without a duration. -/
def waitDefinition : WorkflowDefinition where
  nodes := some [⟨"start", .trigger, "Start", some []⟩, ⟨"wait", .delay, "Wait", some []⟩]
  edges := some [⟨"e1", "start", "wait", .json .null⟩]

end Dashboard

end Windylane
