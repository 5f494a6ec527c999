import Mathlib.Data.List.Sort
import Mathlib.Data.Rat.Defs
import Windylane.Lib.Float64

/-! JSON values as the services exchange them, and what `encoding/json` does with them: decoding into an
    untyped value, and matching the members of an object with the fields of a struct. Texts are modelled by
    the value they denote; `RawMessage` keeps the texts that denote none. -/

namespace Windylane

/-- A JSON value. The members of an object stand in the order of the text, and a key may repeat. -/
inductive Json where
  | null
  | bool (b : Bool)
  | num (q : Rat)
  | str (s : String)
  | arr (items : List Json)
  | obj (members : List (String × Json))

namespace Json

mutual

def decEq : (a b : Json) → Decidable (a = b)
  | .null, .null => isTrue rfl
  | .bool a, .bool b => if h : a = b then isTrue (h ▸ rfl) else isFalse fun e => h (Json.bool.inj e)
  | .num a, .num b => if h : a = b then isTrue (h ▸ rfl) else isFalse fun e => h (Json.num.inj e)
  | .str a, .str b => if h : a = b then isTrue (h ▸ rfl) else isFalse fun e => h (Json.str.inj e)
  | .arr a, .arr b =>
    match decEqItems a b with
    | isTrue h => isTrue (h ▸ rfl)
    | isFalse h => isFalse fun e => h (Json.arr.inj e)
  | .obj a, .obj b =>
    match decEqMembers a b with
    | isTrue h => isTrue (h ▸ rfl)
    | isFalse h => isFalse fun e => h (Json.obj.inj e)
  | .null, .bool _ | .null, .num _ | .null, .str _ | .null, .arr _ | .null, .obj _ => isFalse nofun
  | .bool _, .null | .bool _, .num _ | .bool _, .str _ | .bool _, .arr _ | .bool _, .obj _ => isFalse nofun
  | .num _, .null | .num _, .bool _ | .num _, .str _ | .num _, .arr _ | .num _, .obj _ => isFalse nofun
  | .str _, .null | .str _, .bool _ | .str _, .num _ | .str _, .arr _ | .str _, .obj _ => isFalse nofun
  | .arr _, .null | .arr _, .bool _ | .arr _, .num _ | .arr _, .str _ | .arr _, .obj _ => isFalse nofun
  | .obj _, .null | .obj _, .bool _ | .obj _, .num _ | .obj _, .str _ | .obj _, .arr _ => isFalse nofun

def decEqItems : (a b : List Json) → Decidable (a = b)
  | [], [] => isTrue rfl
  | [], _ :: _ | _ :: _, [] => isFalse nofun
  | x :: xs, y :: ys =>
    match decEq x y, decEqItems xs ys with
    | isTrue h, isTrue t => isTrue (h ▸ t ▸ rfl)
    | isFalse h, _ => isFalse fun e => h (List.cons.inj e).1
    | _, isFalse t => isFalse fun e => t (List.cons.inj e).2

def decEqMembers : (a b : List (String × Json)) → Decidable (a = b)
  | [], [] => isTrue rfl
  | [], _ :: _ | _ :: _, [] => isFalse nofun
  | (k, x) :: xs, (l, y) :: ys =>
    match decEq x y, decEqMembers xs ys with
    | isTrue h, isTrue t =>
      if hk : k = l then isTrue (hk ▸ h ▸ t ▸ rfl) else isFalse fun e => hk (Prod.mk.inj (List.cons.inj e).1).1
    | isFalse h, _ => isFalse fun e => h (Prod.mk.inj (List.cons.inj e).1).2
    | _, isFalse t => isFalse fun e => t (List.cons.inj e).2

end

instance : DecidableEq Json := decEq

/-- Set a key of a map kept in key order. -/
def setMember (key : String) (value : Json) : List (String × Json) → List (String × Json)
  | [] => [(key, value)]
  | (k, v) :: rest =>
    if key < k then (key, value) :: (k, v) :: rest
    else if key = k then (key, value) :: rest
    else (k, v) :: setMember key value rest

mutual

/-- The Go value that `json.Unmarshal` gives for an untyped target: an object becomes a map, in which the
    last of repeated keys stays, and a number becomes a float. Maps are kept in key order and floats as the
    decimals they are written as, so equal values are equal here, and this is also what `json.Marshal` writes
    for the value. A number is taken to be within the range of floats. -/
def normalize : Json → Json
  | .null => .null
  | .bool b => .bool b
  | .num q => .num (Float64.rewritten q)
  | .str s => .str s
  | .arr items => .arr (normalizeItems items)
  | .obj members => .obj (normalizeMembers members [])

def normalizeItems : List Json → List Json
  | [] => []
  | x :: xs => normalize x :: normalizeItems xs

/-- Read the members into the map `seen`, from the first to the last. -/
def normalizeMembers : List (String × Json) → List (String × Json) → List (String × Json)
  | [], seen => seen
  | (key, value) :: rest, seen => normalizeMembers rest (setMember key (normalize value) seen)

end

/-- What `encoding/json` calls a value in its error texts. -/
def kind : Json → String
  | .null => "null"
  | .bool _ => "bool"
  | .num _ => "number"
  | .str _ => "string"
  | .arr _ => "array"
  | .obj _ => "object"

end Json

/-- The bytes of a `json.RawMessage`: none, the text of a JSON value, or other bytes, for which `first` is
    the value that a stream decoder reads from their front. -/
inductive RawMessage where
  | empty
  | json (value : Json)
  | malformed (first : Option Json)
deriving DecidableEq

namespace RawMessage

/-- `json.Unmarshal` into an untyped value. -/
def unmarshal : RawMessage → Option Json
  | .json value => some value.normalize
  | _ => none

/-- `json.Valid`. -/
def valid : RawMessage → Bool
  | .json _ => true
  | _ => false

/-- Absent or the text `null`. -/
def isNull : RawMessage → Bool
  | .empty => true
  | .json .null => true
  | _ => false

/-- The value that `Decode` of a stream decoder reads. -/
def decode : RawMessage → Option Json
  | .empty => none
  | .json value => some value
  | .malformed first => first

def isEmpty : RawMessage → Bool
  | .empty => true
  | _ => false

end RawMessage

/-- `unicode.IsSpace`. -/
def isSpace (c : Char) : Bool :=
  c.toNat ∈ [0x09, 0x0a, 0x0b, 0x0c, 0x0d, 0x20, 0x85, 0xa0, 0x1680, 0x2028, 0x2029, 0x202f, 0x205f, 0x3000] ||
    (0x2000 ≤ c.toNat && c.toNat ≤ 0x200a)

/-- `strings.TrimSpace`. -/
def trimSpace (s : String) : String :=
  String.ofList (((s.toList.dropWhile isSpace).reverse.dropWhile isSpace).reverse)

/-- The case folding under which `encoding/json` matches object keys with field names: ASCII letters, and
    the two other characters that fold to one. -/
def foldChar (c : Char) : Char :=
  if c.toNat = 0x17f then 's' else if c.toNat = 0x212a then 'k' else c.toLower

def foldName (s : String) : List Char := s.toList.map foldChar

/-- The field of a struct that an object key sets: the field of that name, or else the first one that
    matches without regard to case. -/
def fieldFor (fields : List String) (key : String) : Option String :=
  if key ∈ fields then some key else fields.find? fun field => foldName field == foldName key

/-- What decoding a value into a field answers: the struct with the field set, or the error that
    `encoding/json` remembers. -/
abbrev Decoded (τ : Type) := Except String τ

/-- The error of a value that does not fit the type of its field. -/
def typeError (struct field goType : String) (found : String) : String :=
  "json: cannot unmarshal " ++ found ++ " into Go struct field " ++ struct ++ "." ++ field ++ " of type " ++ goType

/-- Decode the members of an object into a struct, from the first to the last. `assign` sets the field a key
    names; a key that names none is an error when unknown fields are disallowed (`strict`). The first error is
    the one reported, and later members are still read. -/
def decodeMembers {τ : Type} (strict : Bool) (fields : List String) (assign : τ → String → Json → Decoded τ) :
    List (String × Json) → τ → Option String → Decoded τ
  | [], value, none => .ok value
  | [], _, some e => .error e
  | (key, member) :: rest, value, err =>
    match fieldFor fields key with
    | none =>
      let unknown := if strict then some ("json: unknown field \"" ++ key ++ "\"") else none
      decodeMembers strict fields assign rest value (err.or unknown)
    | some field =>
      match assign value field member with
      | .ok value' => decodeMembers strict fields assign rest value' err
      | .error e => decodeMembers strict fields assign rest value (err.or (some e))

/-- A string field; `null` leaves it as it is. -/
def assignString {τ : Type} (struct field : String) (value : τ) (set : String → τ) : Json → Decoded τ
  | .str s => .ok (set s)
  | .null => .ok value
  | v => .error (typeError struct field "string" v.kind)

/-- An `int` field takes a whole number of 64 bits; `null` leaves it as it is. -/
def assignInt {τ : Type} (struct field : String) (value : τ) (set : Int → τ) : Json → Decoded τ
  | .num q =>
    if q.den = 1 ∧ -2 ^ 63 ≤ q.num ∧ q.num < 2 ^ 63 then .ok (set q.num)
    else .error (typeError struct field "int" ("number " ++ toString q))
  | .null => .ok value
  | v => .error (typeError struct field "int" v.kind)

end Windylane
