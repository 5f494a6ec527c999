import Windylane.Lib.Utf8

/-! The body of a webhook response as `HTTPClient.Send` returns it, after `internal/webhook/http_client.go`. It is stored in
    a TEXT column, which takes no byte sequence that is not UTF-8 and no NUL. -/

namespace Windylane

/-- `strings.ToValidUTF8`. -/
def toValidUTF8 (s replacement : List UInt8) : List UInt8 := Utf8.repair replacement (Utf8.scan s 0) false

structure HTTPClient where
  responseBodyLimit : Int64

def defaultResponseBodyLimit : Int64 := 4 * 1024

def newHTTPClient (responseBodyLimit : Int64) : HTTPClient :=
  ⟨if responseBodyLimit ≤ 0 then defaultResponseBodyLimit else responseBodyLimit⟩

/-- What comes back for a request: no answer, or a status and a body, whose reading may fail. -/
abbrev HTTPAnswer := Except String (Int × Except String (List UInt8))

/-- A response with the bytes of its body. -/
structure RawResponse where
  statusCode : Int
  body : List UInt8
deriving DecidableEq

namespace HTTPClient

/-- What is kept of a body: a `LimitReader` of one byte more than the limit is read to its end, and gives nothing when
    that number is not positive. -/
def readBody (client : HTTPClient) (body : List UInt8) : List UInt8 :=
  let body := body.take (client.responseBodyLimit + 1).toInt.toNat
  if client.responseBodyLimit.toInt < body.length then body.take client.responseBodyLimit.toInt.toNat else body

/-- `Send`, when the request is sent and answered so. -/
def send (client : HTTPClient) (answer : HTTPAnswer) : Except String RawResponse := do
  let (statusCode, body) ← answer
  let body := client.readBody (← body)
  pure ⟨statusCode, toValidUTF8 body (String.utf8EncodeChar '�')⟩

/-- A limit keeps that many bytes, but the largest number keeps none. -/
theorem readBody_eq {client : HTTPClient} (positive : 0 < client.responseBodyLimit) (body : List UInt8) :
    client.readBody body = [] ∨ client.readBody body = body.take client.responseBodyLimit.toInt.toNat := by
  have positive : 0 < client.responseBodyLimit.toInt := Int64.lt_iff_toInt_lt.1 positive
  have bound := Int64.toInt_lt client.responseBodyLimit
  have next : (client.responseBodyLimit + 1).toInt = client.responseBodyLimit.toInt + 1 ∨ (client.responseBodyLimit + 1).toInt ≤ 0 := by
    rw [Int64.toInt_add, show (1 : Int64).toInt = 1 by decide]
    by_cases largest : client.responseBodyLimit.toInt + 1 < 2 ^ 63
    · exact Or.inl (Int.bmod_eq_of_le (by omega) (by omega))
    · refine Or.inr ?_
      rw [show client.responseBodyLimit.toInt + 1 = 2 ^ 63 by omega]
      decide
  unfold readBody
  rcases next with next | next
  · refine Or.inr ?_
    rw [next]
    dsimp only
    split
    · rw [List.take_take]
      congr 1
      omega
    · rename_i short
      rw [List.length_take] at short
      rw [List.take_of_length_le (by omega), List.take_of_length_le (by omega)]
  · left
    rw [Int.toNat_of_nonpos next, List.take_zero]
    simp

/-- Whatever the bytes, what is written is UTF-8. -/
theorem toValidUTF8_valid (s : List UInt8) : (toValidUTF8 s (String.utf8EncodeChar '�')).toByteArray.IsValidUTF8 := by
  obtain ⟨text, repaired⟩ := Utf8.repair_valid ['�'] (Utf8.scan s 0) false
  rw [List.flatMap_singleton] at repaired
  exact ⟨text, by rw [toValidUTF8, repaired, List.utf8Encode]⟩

theorem toValidUTF8_length (s : List UInt8) :
    (toValidUTF8 s (String.utf8EncodeChar '�')).length + Utf8.strays (Utf8.scan s 0) =
      s.length + 3 * Utf8.strayRuns (Utf8.scan s 0) false := by
  have repaired := Utf8.repair_length (String.utf8EncodeChar '�') (Utf8.scan s 0) false
  rwa [Utf8.scan_bytes] at repaired

theorem toValidUTF8_nul {s : List UInt8} (text : 0 ∉ s) : 0 ∉ toValidUTF8 s (String.utf8EncodeChar '�') := by
  intro nul
  rcases Utf8.mem_repair nul with nul | nul
  · rw [Utf8.scan_bytes] at nul
    exact text nul
  · exact absurd nul (by decide)

/-- A text that a TEXT column takes. -/
def Storable (bytes : List UInt8) : Prop := bytes.toByteArray.IsValidUTF8 ∧ 0 ∉ bytes

/-- What is kept of the body has room for its replacements: the strays that go make up for them, or there are bytes left. -/
def HasRoom (client : HTTPClient) (kept : List UInt8) : Prop :=
  kept.length + 3 * Utf8.strayRuns (Utf8.scan kept 0) false ≤
    client.responseBodyLimit.toInt.toNat + Utf8.strays (Utf8.scan kept 0)

instance (client : HTTPClient) (kept : List UInt8) : Decidable (client.HasRoom kept) := inferInstanceAs (Decidable (_ ≤ _))

/-- UTF-8 has room: there is nothing to replace. -/
theorem hasRoom_of_valid {client : HTTPClient} {body : List UInt8}
    (valid : (body.take client.responseBodyLimit.toInt.toNat).toByteArray.IsValidUTF8) :
    client.HasRoom (body.take client.responseBodyLimit.toInt.toNat) := by
  obtain ⟨text, encoded⟩ := valid
  have kept : body.take client.responseBodyLimit.toInt.toNat = text.flatMap String.utf8EncodeChar := by
    have := congrArg (fun b : ByteArray => b.data.toList) encoded
    simpa [List.utf8Encode, List.data_toByteArray] using this
  have short : (body.take client.responseBodyLimit.toInt.toNat).length ≤ client.responseBodyLimit.toInt.toNat := by
    rw [List.length_take]
    omega
  unfold HasRoom
  rw [kept, Utf8.scan_text, Utf8.strayRuns_text, ← kept]
  omega

end HTTPClient

end Windylane
