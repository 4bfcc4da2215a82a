/-
  Sample: concrete primitives small enough to evaluate.

  A 32-bit checksum stands in for SHA-256, a transparent scheme for the signature (a signature
  is the key written in front of the message) and the reversed input for the VRF.
-/
import NeuronWeb.Core.Hash

set_option autoImplicit false

namespace NeuronWeb.Sample

mutual

/-- The text of a JSON value, without escapes. -/
def render : Json Rat → String
  | .null => "null"
  | .bool b => toString b
  | .int n => toString n
  | .num x => JsNumber.toText x
  | .str s => "\"" ++ s ++ "\""
  | .arr items => "[" ++ renderItems items ++ "]"
  | .obj fields => "\x7b" ++ renderFields fields ++ "\x7d"

def renderItems : List (Json Rat) → String
  | [] => ""
  | v :: rest => render v ++ "," ++ renderItems rest

def renderFields : List (String × Json Rat) → String
  | [] => ""
  | (key, v) :: rest => "\"" ++ key ++ "\":" ++ render v ++ "," ++ renderFields rest

end

/-- A polynomial checksum of the input. -/
def checksum (b : Bytes) : Nat :=
  b.foldl (fun acc x => (acc * 257 + x.toNat + 1) % 4294967291) 7

/-- The four bytes of the checksum. -/
def digest (b : Bytes) : Bytes :=
  let n := checksum b
  [UInt8.ofNat (n / 16777216), UInt8.ofNat (n / 65536 % 256), UInt8.ofNat (n / 256 % 256),
    UInt8.ofNat (n % 256)]

/-- The key is public and private at once: only its name is signed with. -/
def signature (message : String) (key : Hex) : Hex := key ++ "|" ++ message

def primitives : Primitives Rat where
  sha256 := digest
  encodeJson value := utf8ToBytes (render value)
  sign message priv := some (signature message priv)
  verify sig message pub := sig == signature message pub
  vrfVerify pub alpha pi := if pi = pub then some alpha.reverse else none

theorem verify_signature (message : String) (key : Hex) :
    primitives.verify (signature message key) message key = true := by
  simp [primitives]

theorem vrfUnique (pub : Hex) (alpha : Bytes) (pi pi' : Hex) (beta beta' : Bytes)
    (h : primitives.vrfVerify pub alpha pi = some beta)
    (h' : primitives.vrfVerify pub alpha pi' = some beta') : beta = beta' := by
  simp only [primitives, Option.ite_none_right_eq_some, Option.some.injEq] at h h'
  rw [← h.2, ← h'.2]

end NeuronWeb.Sample
