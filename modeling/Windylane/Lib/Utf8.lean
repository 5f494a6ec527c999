import Mathlib.Data.List.Basic

/-! UTF-8 in a list of bytes that need not be well formed. The list is read rune by rune; a byte at which no rune starts is a
    stray, and reading goes on at the next byte. A text is repaired by writing a replacement for each run of strays. -/

namespace Utf8

/-- The rune whose encoding is at the front. -/
def decodeRune (s : List UInt8) : Option Char := s.toByteArray.utf8DecodeChar? 0

inductive Piece where
  | rune (c : Char)
  | stray (b : UInt8)

namespace Piece

def bytes : Piece → List UInt8
  | .rune c => String.utf8EncodeChar c
  | .stray b => [b]

def isStray : Piece → Bool
  | .rune _ => false
  | .stray _ => true

end Piece

/-- The pieces of a list of bytes, of which `skip` still belong to the rune before. -/
def scan : List UInt8 → Nat → List Piece
  | [], _ => []
  | _ :: rest, skip + 1 => scan rest skip
  | b :: rest, 0 =>
    match decodeRune (b :: rest) with
    | some c => .rune c :: scan rest (c.utf8Size - 1)
    | none => .stray b :: scan rest 0

/-- How many bytes are strays. -/
def strays (pieces : List Piece) : Nat := pieces.countP Piece.isStray

/-- In how many runs the strays stand; `inRun` says that a run is open before the first piece. -/
def strayRuns : List Piece → Bool → Nat
  | [], _ => 0
  | .rune _ :: rest, _ => strayRuns rest false
  | .stray _ :: rest, inRun => (if inRun then 0 else 1) + strayRuns rest true

/-- The bytes of the runes, with a replacement for each run of strays. -/
def repair (replacement : List UInt8) : List Piece → Bool → List UInt8
  | [], _ => []
  | .rune c :: rest, _ => String.utf8EncodeChar c ++ repair replacement rest false
  | .stray _ :: rest, inRun => (if inRun then [] else replacement) ++ repair replacement rest true

theorem strays_rune (c : Char) (rest : List Piece) : strays (.rune c :: rest) = strays rest := List.countP_cons_of_neg nofun

theorem strays_stray (b : UInt8) (rest : List Piece) : strays (.stray b :: rest) = strays rest + 1 := List.countP_cons_of_pos rfl

/-! ### Reading -/

theorem decodeRune_eq_some {s : List UInt8} {c : Char} : decodeRune s = some c ↔ ∃ rest, s = String.utf8EncodeChar c ++ rest := by
  constructor
  · intro decoded
    obtain ⟨rest, split⟩ := ByteArray.exists_of_utf8DecodeChar?_eq_some decoded
    refine ⟨rest.data.toList, ?_⟩
    have := congrArg (fun b : ByteArray => b.data.toList) split
    simpa [List.data_toByteArray] using this
  · rintro ⟨rest, rfl⟩
    rw [decodeRune, List.toByteArray_append]
    exact ByteArray.utf8DecodeChar?_utf8EncodeChar_append

theorem scan_skip (s : List UInt8) (skip : Nat) : scan s skip = scan (s.drop skip) 0 := by
  induction skip generalizing s with
  | zero => rfl
  | succ skip ih =>
    cases s with
    | nil => rfl
    | cons b rest => exact ih rest

theorem scan_rune (c : Char) (rest : List UInt8) : scan (String.utf8EncodeChar c ++ rest) 0 = .rune c :: scan rest 0 := by
  have decoded : decodeRune (String.utf8EncodeChar c ++ rest) = some c := decodeRune_eq_some.2 ⟨rest, rfl⟩
  have size := String.length_utf8EncodeChar c
  cases front : String.utf8EncodeChar c with
  | nil =>
    rw [front] at size
    exact absurd size.symm (Nat.ne_of_gt c.utf8Size_pos)
  | cons b more =>
    rw [front] at size decoded
    rw [List.cons_append] at decoded ⊢
    rw [scan, decoded]
    change Piece.rune c :: scan (more ++ rest) (c.utf8Size - 1) = _
    rw [scan_skip, ← size, List.length_cons, Nat.add_sub_cancel, List.drop_left]

theorem scan_stray {b : UInt8} {rest : List UInt8} (none : decodeRune (b :: rest) = none) :
    scan (b :: rest) 0 = .stray b :: scan rest 0 := by
  rw [scan, none]

/-- Bytes are empty, or start with a rune, or start with a stray. -/
@[elab_as_elim] theorem pieces_induction {motive : List UInt8 → Prop} (s : List UInt8) (nil : motive [])
    (rune : ∀ c rest, motive rest → motive (String.utf8EncodeChar c ++ rest))
    (stray : ∀ b rest, decodeRune (b :: rest) = none → motive rest → motive (b :: rest)) : motive s := by
  induction size : s.length using Nat.strongRecOn generalizing s with
  | _ n ih =>
    cases s with
    | nil => exact nil
    | cons b rest =>
      cases decoded : decodeRune (b :: rest) with
      | none => exact stray b rest decoded (ih _ (by rw [← size, List.length_cons]; omega) rest rfl)
      | some c =>
        obtain ⟨after, split⟩ := decodeRune_eq_some.1 decoded
        rw [split] at size ⊢
        rw [List.length_append, String.length_utf8EncodeChar] at size
        exact rune c after (ih _ (by have := c.utf8Size_pos; omega) after rfl)

/-- The pieces are all of the bytes. -/
theorem scan_bytes (s : List UInt8) : (scan s 0).flatMap Piece.bytes = s := by
  induction s using pieces_induction with
  | nil => rfl
  | rune c rest ih => rw [scan_rune, List.flatMap_cons, ih, Piece.bytes]
  | stray b rest none ih => rw [scan_stray none, List.flatMap_cons, ih, Piece.bytes, List.singleton_append]

/-- The bytes of a text have no strays. -/
theorem scan_text (text : List Char) : scan (text.flatMap String.utf8EncodeChar) 0 = text.map Piece.rune := by
  induction text with
  | nil => rfl
  | cons c rest ih => rw [List.flatMap_cons, scan_rune, ih, List.map_cons]

theorem strayRuns_text (text : List Char) (inRun : Bool) : strayRuns (text.map Piece.rune) inRun = 0 := by
  induction text generalizing inRun with
  | nil => rfl
  | cons c rest ih => exact ih false

/-! ### Repairing -/

/-- What is repaired is a text when the replacement is one. -/
theorem repair_valid (replacement : List Char) (pieces : List Piece) (inRun : Bool) :
    ∃ text : List Char, repair (replacement.flatMap String.utf8EncodeChar) pieces inRun = text.flatMap String.utf8EncodeChar := by
  induction pieces generalizing inRun with
  | nil => exact ⟨[], rfl⟩
  | cons piece rest ih =>
    cases piece with
    | rune c =>
      obtain ⟨text, repaired⟩ := ih false
      exact ⟨c :: text, by rw [repair, repaired, List.flatMap_cons]⟩
    | stray b =>
      obtain ⟨text, repaired⟩ := ih true
      cases inRun with
      | true => exact ⟨text, by simpa [repair] using repaired⟩
      | false => exact ⟨replacement ++ text, by simp [repair, repaired]⟩

/-- The strays are gone, and each run of them has left a replacement. -/
theorem repair_length (replacement : List UInt8) (pieces : List Piece) (inRun : Bool) :
    (repair replacement pieces inRun).length + strays pieces =
      (pieces.flatMap Piece.bytes).length + replacement.length * strayRuns pieces inRun := by
  induction pieces generalizing inRun with
  | nil => rfl
  | cons piece rest ih =>
    cases piece with
    | rune c =>
      have := ih false
      rw [repair, strays_rune, strayRuns, List.flatMap_cons, Piece.bytes, List.length_append, List.length_append]
      omega
    | stray b =>
      have := ih true
      rw [repair, strays_stray, strayRuns, List.flatMap_cons, Piece.bytes, List.length_append, List.length_append,
        List.length_singleton, Nat.mul_add]
      cases inRun with
      | true =>
        simp only [if_true, List.length_nil, Nat.mul_zero]
        omega
      | false =>
        simp only [Bool.false_eq_true, if_false, Nat.mul_one]
        omega

/-- What is repaired has no bytes but those of the runes and of the replacement. -/
theorem mem_repair {replacement : List UInt8} {pieces : List Piece} {inRun : Bool} {b : UInt8}
    (mem : b ∈ repair replacement pieces inRun) : b ∈ pieces.flatMap Piece.bytes ∨ b ∈ replacement := by
  induction pieces generalizing inRun with
  | nil => cases mem
  | cons piece rest ih =>
    rw [List.flatMap_cons, List.mem_append]
    cases piece with
    | rune c =>
      rcases List.mem_append.1 mem with mem | mem
      · exact Or.inl (Or.inl mem)
      · exact (ih mem).imp_left Or.inr
    | stray q =>
      rcases List.mem_append.1 mem with mem | mem
      · cases inRun with
        | true => cases mem
        | false => exact Or.inr mem
      · exact (ih mem).imp_left Or.inr

end Utf8
