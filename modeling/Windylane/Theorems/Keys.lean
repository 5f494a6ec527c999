import Mathlib.Algebra.Order.Ring.Nat
import Windylane.Service.Executions

/-! The texts that name things: the text of an id determines it, and so does the key of a node's task determine
    the execution and the node. -/

namespace Windylane

namespace UUID

theorem hex_length (n count : Nat) : (hex n count).length = count := by
  induction count with
  | zero => rfl
  | succ count ih => simp [hex, ih]

theorem digitChar_injective {a b : Nat} (ha : a < 16) (hb : b < 16) (h : Nat.digitChar a = Nat.digitChar b) : a = b := by
  have all : ∀ a b : Fin 16, Nat.digitChar a = Nat.digitChar b → a = b := by decide
  exact congrArg Fin.val (all ⟨a, ha⟩ ⟨b, hb⟩ h)

/-- Hexadecimal digits determine the number up to their count. -/
theorem hex_injective {n m count : Nat} (h : hex n count = hex m count) : n % 16 ^ count = m % 16 ^ count := by
  induction count with
  | zero => simp [Nat.mod_one]
  | succ count ih =>
    simp only [hex, List.cons.injEq] at h
    have top := digitChar_injective (Nat.mod_lt _ (by decide)) (Nat.mod_lt _ (by decide)) h.1
    have rest := ih h.2
    rw [pow_succ, Nat.mod_mul, Nat.mod_mul, top, rest]

theorem text_injective {u v : UUID} (h : u.text = v.text) : u = v := by
  have lists := congrArg String.toList h
  simp only [text, String.toList_ofList, List.append_assoc, List.cons_append] at lists
  obtain ⟨h1, lists⟩ := List.append_inj lists (by rw [hex_length, hex_length])
  obtain ⟨h2, lists⟩ := List.append_inj (List.cons.inj lists).2 (by rw [hex_length, hex_length])
  obtain ⟨h3, lists⟩ := List.append_inj (List.cons.inj lists).2 (by rw [hex_length, hex_length])
  obtain ⟨h4, lists⟩ := List.append_inj (List.cons.inj lists).2 (by rw [hex_length, hex_length])
  have h1 := hex_injective h1
  have h2 := hex_injective h2
  have h3 := hex_injective h3
  have h4 := hex_injective h4
  have h5 := hex_injective (List.cons.inj lists).2
  have hu := u.bits.isLt
  have hv := v.bits.isLt
  obtain ⟨⟨u⟩⟩ := u
  obtain ⟨⟨v⟩⟩ := v
  simp only [BitVec.toNat_ofFin] at *
  have : u = v := by omega
  rw [this]

theorem text_length (u : UUID) : u.text.toList.length = 36 := by
  simp [text, hex_length]

theorem mem_hex {n count : Nat} {c : Char} (hc : c ∈ hex n count) : ∃ d : Fin 16, c = Nat.digitChar d := by
  induction count with
  | zero => cases hc
  | succ count ih =>
    rcases List.mem_cons.1 hc with rfl | rest
    · exact ⟨⟨_, Nat.mod_lt _ (by decide)⟩, rfl⟩
    · exact ih rest

/-- What holds of the hexadecimal digits and of the dash holds of the text. -/
theorem text_chars {p : Char → Prop} (digits : ∀ d : Fin 16, p (Nat.digitChar d)) (dash : p '-') (u : UUID) :
    ∀ c ∈ u.text.toList, p c := by
  have digit {n count : Nat} {c : Char} (hc : c ∈ hex n count) : p c := by
    obtain ⟨d, rfl⟩ := mem_hex hc
    exact digits d
  intro c hc
  simp only [text, String.toList_ofList, List.mem_append, List.mem_cons] at hc
  rcases hc with ((((hc | rfl | hc) | rfl | hc) | rfl | hc) | rfl | hc)
  · exact digit hc
  · exact dash
  · exact digit hc
  · exact dash
  · exact digit hc
  · exact dash
  · exact digit hc
  · exact dash
  · exact digit hc

end UUID

/-- An ASCII character is one byte. -/
theorem utf8ByteSize_ascii {text : List Char} (ascii : ∀ c ∈ text, c.toNat ≤ 0x7f) :
    (String.ofList text).utf8ByteSize = text.length := by
  induction text with
  | nil => rfl
  | cons c rest ih =>
    have one : c.utf8Size = 1 := Char.utf8Size_eq_one_iff.2 (ascii c List.mem_cons_self)
    have others := ih fun q hq => ascii q (List.mem_cons_of_mem _ hq)
    rw [show c :: rest = [c] ++ rest from rfl, String.ofList_append, String.utf8ByteSize_append, others,
      ← String.singleton_eq_ofList, String.utf8ByteSize_singleton, one, List.length_append, List.length_singleton]

theorem workflowTaskKey_injective {e e' : UUID} {n n' : String} (h : workflowTaskKey e n = workflowTaskKey e' n') :
    e = e' ∧ n = n' := by
  have h := congrArg String.toList h
  simp only [workflowTaskKey, String.toList_append, List.append_assoc, List.append_cancel_left_eq] at h
  obtain ⟨he, hn⟩ := List.append_inj h (by rw [UUID.text_length, UUID.text_length])
  simp only [List.append_cancel_left_eq] at hn
  exact ⟨UUID.text_injective (String.toList_inj.1 he), String.toList_inj.1 hn⟩

/-- The payload of a node's delivery names its execution and its node. -/
theorem workflowWebhookPayload_names {h : Host} {eventID : UUID} {now : Time} {execution : WorkflowExecution}
    {nodeID : String} {input : RawMessage} {members : List (String × Json)} {executionID : UUID} {name : String}
    (payload : workflowWebhookPayload h eventID now execution nodeID input = .obj members)
    (hx : ("workflow_execution_id", .str executionID.text) ∈ members) (hn : ("node_id", .str name) ∈ members) :
    executionID = execution.id ∧ name = nodeID := by
  unfold workflowWebhookPayload at payload
  cases payload
  constructor
  · refine UUID.text_injective ?_
    cases input <;> simpa using hx
  · cases input <;> simpa using hn

end Windylane
