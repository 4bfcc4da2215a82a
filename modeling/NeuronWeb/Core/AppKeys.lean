/-
  Core/AppKeys: the two formats of a private key (`core/crypto.ts`, `ledger/key-bridge.ts`,
  `engine/core/keys.ts`).

  The app keeps its keys as base64 of a JSON Web Key, the engine as hex; both are strings.
  A key of the app is not hex: the base64 of a JSON object starts with `ey`.
-/
import NeuronWeb.Core.Hash

set_option autoImplicit false

namespace NeuronWeb

variable {F : Type}

/-- The base64 character of six bits. -/
def base64Digit (n : Nat) : Char :=
  if n < 26 then Char.ofNat (65 + n)
  else if n < 52 then Char.ofNat (71 + n)
  else if n < 62 then Char.ofNat (n - 4)
  else if n = 62 then '+' else '/'

def base64Chars : Bytes → List Char
  | [] => []
  | [a] => [base64Digit (a.toNat / 4), base64Digit (a.toNat % 4 * 16), '=', '=']
  | [a, b] =>
    [base64Digit (a.toNat / 4), base64Digit (a.toNat % 4 * 16 + b.toNat / 16),
      base64Digit (b.toNat % 16 * 4), '=']
  | a :: b :: c :: rest =>
    base64Digit (a.toNat / 4) :: base64Digit (a.toNat % 4 * 16 + b.toNat / 16) ::
      base64Digit (b.toNat % 16 * 4 + c.toNat / 64) :: base64Digit (c.toNat % 64) ::
        base64Chars rest

/-- `btoa`. -/
def btoa (bytes : Bytes) : String := String.ofList (base64Chars bytes)

/-- A private key as the app stores it: `btoa(JSON.stringify(jwk))` of an object that has a
property, so its text starts with a brace and a quote. -/
def AppPrivate (priv : String) : Prop := ∃ rest : Bytes, priv = btoa (0x7b :: 0x22 :: rest)

theorem AppPrivate.not_hex {priv : String} (h : AppPrivate priv) : hexToBytes priv = none := by
  obtain ⟨rest, rfl⟩ := h
  have hchars : ∃ c tail, base64Chars (0x7b :: 0x22 :: rest) = 'e' :: 'y' :: c :: tail := by
    cases rest with
    | nil => exact ⟨_, _, rfl⟩
    | cons c rest => exact ⟨_, _, rfl⟩
  obtain ⟨c, tail, hchars⟩ := hchars
  unfold hexToBytes btoa
  rw [String.toList_ofList, hchars]
  unfold decodeHexChars
  have hy : hexValue 'y' = none := rfl
  rw [hy]
  cases hexValue 'e' <;> cases decodeHexChars (c :: tail) <;> rfl

/-- `sign(message, priv)` of the engine reads its key as hex, and throws on one that is not. -/
def SignsWithHex (P : Primitives F) : Prop :=
  ∀ message priv, hexToBytes priv = none → P.sign message priv = none

end NeuronWeb
