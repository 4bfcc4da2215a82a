import NeuronWeb.Foundation.JsMap
import NeuronWeb.Foundation.Number

set_option autoImplicit false

/-!
# Hashing and the cryptographic primitives (`engine/core/hash.ts`, `keys.ts`, `vrf.ts`)

SHA-256, the P-256 signature and the VRF come from `@noble/hashes` and `@noble/curves`; they are
the fields of `Primitives`. So is `JSON.stringify` followed by UTF-8 encoding, because the only
thing the source relies on is that different values give different bytes.
-/

namespace NeuronWeb

/-- `Hex = string`. -/
abbrev Hex := String

/-- A `Uint8Array`. -/
abbrev Bytes := List UInt8

/-- JavaScript truthiness of an optional string: absent and empty are both falsy. -/
def truthy : Option String → Bool
  | some s => s != ""
  | none => false

theorem truthy_iff (o : Option String) : truthy o = true ↔ ∃ s, o = some s ∧ s ≠ "" := by
  cases o <;> simp [truthy]

/-! ## Byte and hex coding -/

/-- `utf8ToBytes`. -/
def utf8ToBytes (s : String) : Bytes := s.toUTF8.data.toList

theorem utf8ToBytes_injective : Function.Injective utf8ToBytes := by
  intro a b h
  have hdata : a.toUTF8.data = b.toUTF8.data := Array.toList_inj.mp h
  have hbytes : a.toUTF8 = b.toUTF8 := by
    cases ha : a.toUTF8
    cases hb : b.toUTF8
    simp_all
  exact String.toByteArray_inj.mp hbytes

def hexDigit (n : Nat) : Char := if n < 10 then Char.ofNat (48 + n) else Char.ofNat (87 + n)

/-- The value of a hex digit; both cases are accepted. -/
def hexValue (c : Char) : Option Nat :=
  if '0' ≤ c ∧ c ≤ '9' then some (c.toNat - 48)
  else if 'a' ≤ c ∧ c ≤ 'f' then some (c.toNat - 87)
  else if 'A' ≤ c ∧ c ≤ 'F' then some (c.toNat - 55)
  else none

def hexChars : Bytes → List Char
  | [] => []
  | b :: rest => hexDigit (b.toNat / 16) :: hexDigit (b.toNat % 16) :: hexChars rest

/-- `bytesToHex`. -/
def bytesToHex (b : Bytes) : Hex := String.ofList (hexChars b)

def decodeHexChars : List Char → Option Bytes
  | [] => some []
  | [_] => none
  | hi :: lo :: rest =>
    match hexValue hi, hexValue lo, decodeHexChars rest with
    | some x, some y, some bytes => some (UInt8.ofNat (16 * x + y) :: bytes)
    | _, _, _ => none

/-- `hexToBytes`, which throws (here `none`) on an odd length or a foreign character. -/
def hexToBytes (h : Hex) : Option Bytes := decodeHexChars h.toList

theorem hexValue_hexDigit : ∀ {n : Nat}, n < 16 → hexValue (hexDigit n) = some n := by
  decide

theorem decodeHexChars_hexChars (b : Bytes) : decodeHexChars (hexChars b) = some b := by
  induction b with
  | nil => rfl
  | cons x rest ih =>
    have hx : x.toNat < 256 := x.toNat_lt
    have hi : hexValue (hexDigit (x.toNat / 16)) = some (x.toNat / 16) :=
      hexValue_hexDigit (by omega)
    have lo : hexValue (hexDigit (x.toNat % 16)) = some (x.toNat % 16) :=
      hexValue_hexDigit (by omega)
    have halves : 16 * (x.toNat / 16) + x.toNat % 16 = x.toNat := by omega
    simp [hexChars, decodeHexChars, hi, lo, ih, halves]

@[simp] theorem hexToBytes_bytesToHex (b : Bytes) : hexToBytes (bytesToHex b) = some b := by
  simp [hexToBytes, bytesToHex, decodeHexChars_hexChars]

theorem bytesToHex_injective : Function.Injective bytesToHex := by
  intro a b h
  have hb := hexToBytes_bytesToHex b
  rw [← h, hexToBytes_bytesToHex] at hb
  exact Option.some.inj hb

theorem bytesToHex_ne_empty {b : Bytes} (h : b ≠ []) : bytesToHex b ≠ "" := by
  intro hempty
  have : bytesToHex b = bytesToHex [] := by rw [hempty]; rfl
  exact h (bytesToHex_injective this)

/-! ## JSON values -/

/-- A JSON-serialisable value.  Whole numbers and doubles are kept apart; a `bigint`
is already its decimal string. -/
inductive Json (F : Type) where
  | null
  | bool (b : Bool)
  | int (n : Int)
  | num (x : F)
  | str (s : String)
  | arr (items : List (Json F))
  | obj (fields : List (String × Json F))

variable {F : Type}

namespace Json

/-- A property that is left out of the object when the value is `undefined`. -/
def field? (key : String) : Option (Json F) → List (String × Json F)
  | some v => [(key, v)]
  | none => []

/-- A record of strings as a JSON object. -/
def ofRecord (entries : List (String × String)) : Json F :=
  .obj (entries.map fun e => (e.1, .str e.2))

/-- Insert a property into properties sorted by key. -/
def insertField (key : String) (v : Json F) : List (String × Json F) → List (String × Json F)
  | [] => [(key, v)]
  | (key', v') :: rest =>
    if key' < key then (key', v') :: insertField key v rest else (key, v) :: (key', v') :: rest

mutual

/-- `sortValue`: object keys sorted recursively. -/
def sortValue : Json F → Json F
  | .arr items => .arr (sortItems items)
  | .obj fields => .obj (sortFields fields)
  | .null => .null
  | .bool b => .bool b
  | .int n => .int n
  | .num x => .num x
  | .str s => .str s

def sortItems : List (Json F) → List (Json F)
  | [] => []
  | v :: rest => sortValue v :: sortItems rest

def sortFields : List (String × Json F) → List (String × Json F)
  | [] => []
  | (key, v) :: rest => insertField key (sortValue v) (sortFields rest)

end

theorem sortValue_arr (items : List (Json F)) : (arr items).sortValue = .arr (sortItems items) :=
  rfl

theorem sortValue_obj (fields : List (String × Json F)) :
    (obj fields).sortValue = .obj (sortFields fields) := rfl

theorem sortValue_int (n : Int) : (int n : Json F).sortValue = .int n := rfl

theorem sortValue_num (x : F) : (num x).sortValue = .num x := rfl

theorem sortValue_str (s : String) : (str s : Json F).sortValue = .str s := rfl

theorem sortItems_cons (v : Json F) (rest : List (Json F)) :
    sortItems (v :: rest) = v.sortValue :: sortItems rest := rfl

theorem sortFields_cons (key : String) (v : Json F) (rest : List (String × Json F)) :
    sortFields ((key, v) :: rest) = insertField key v.sortValue (sortFields rest) := rfl

theorem find_insertField (key : String) (v : Json F) (fields : List (String × Json F))
    (j : String) :
    JsMap.find j (insertField key v fields) =
      if key = j then some v else JsMap.find j fields := by
  induction fields with
  | nil => rfl
  | cons e rest ih =>
    obtain ⟨key', v'⟩ := e
    unfold insertField
    split
    · rename_i hlt
      have hne : key' ≠ key := fun h => String.lt_irrefl key (h ▸ hlt)
      simp only [JsMap.find_cons, ih]
      by_cases hj : key = j
      · subst hj
        simp [hne]
      · simp [hj]
    · simp only [JsMap.find_cons]

theorem find_sortFields (fields : List (String × Json F)) (j : String) :
    JsMap.find j (sortFields fields) = (JsMap.find j fields).map sortValue := by
  induction fields with
  | nil => rfl
  | cons e rest ih =>
    obtain ⟨key, v⟩ := e
    rw [sortFields_cons, find_insertField, ih]
    simp only [JsMap.find_cons]
    split <;> rfl

end Json

/-! ## The primitives -/

/-- What the source takes from the platform and from `@noble`. -/
structure Primitives (F : Type) where
  /-- `sha256`. -/
  sha256 : Bytes → Bytes
  /-- `utf8ToBytes(JSON.stringify(value))`. -/
  encodeJson : Json F → Bytes
  /-- `sign(message, priv)`; `none` when a malformed key makes it throw. -/
  sign : String → Hex → Option Hex
  /-- `verify(sig, message, pub)`; false on malformed input, never throws. -/
  verify : Hex → String → Hex → Bool
  /-- `vrfVerify(pub, alpha, pi)`: the VRF output when the proof is valid.  The source
  hands it on hex-coded. -/
  vrfVerify : Hex → Bytes → Hex → Option Bytes

/-- `hashHex(...parts)`. -/
def hashHex (P : Primitives F) (b : Bytes) : Hex := bytesToHex (P.sha256 b)

/-- `hashJson(value)`: the hash of the value's canonical encoding. -/
def hashJson (P : Primitives F) (value : Json F) : Hex :=
  hashHex P (P.encodeJson value.sortValue)

end NeuronWeb
