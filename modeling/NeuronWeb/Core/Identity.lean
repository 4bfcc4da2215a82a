import NeuronWeb.Core.Hash

set_option autoImplicit false

/-!
# Attestations and identity dedup (`engine/core/attestation.ts`, `identity.ts`)
-/

namespace NeuronWeb

variable {F : Type}

/-! ## Typed attestations -/

structure TypedAttestation where
  attesterPub : Hex
  type : String
  claimHash : Hex
  sig : Hex
  deriving DecidableEq, Repr, Inhabited

def TypedAttestation.toJson (a : TypedAttestation) : Json F :=
  .obj [("attesterPub", .str a.attesterPub), ("type", .str a.type),
    ("claimHash", .str a.claimHash), ("sig", .str a.sig)]

def attestationMessage (attesterPub type claimHash : String) : String :=
  "attest " ++ type ++ " " ++ claimHash ++ " " ++ attesterPub

/-- Verify one attestation's signature and that it attests `claimHash`. -/
def verifyAttestation (P : Primitives F) (att : TypedAttestation) (claimHash : Hex) : Bool :=
  att.claimHash == claimHash &&
    P.verify att.sig (attestationMessage att.attesterPub att.type att.claimHash) att.attesterPub

structure QuorumPolicy where
  /-- Minimum number of valid, distinct-attester attestations. -/
  min : Nat
  trustedAttesters : Option (List Hex)
  requiredTypes : Option (List String)
  deriving DecidableEq, Repr, Inhabited

structure QuorumResult where
  ok : Bool
  validCount : Nat
  reason : Option String
  deriving DecidableEq, Repr

/-- The loop of `checkQuorum`: attesters seen, types satisfied, attestations counted. -/
def countAttestations (P : Primitives F) (claimHash : Hex) (policy : QuorumPolicy) :
    List TypedAttestation → List Hex → List String → Nat → List String × Nat
  | [], _, satisfied, validCount => (satisfied, validCount)
  | att :: rest, seen, satisfied, validCount =>
    let untrusted := match policy.trustedAttesters with
      | some trusted => !trusted.contains att.attesterPub
      | none => false
    if untrusted || seen.contains att.attesterPub || !verifyAttestation P att claimHash then
      countAttestations P claimHash policy rest seen satisfied validCount
    else
      countAttestations P claimHash policy rest (att.attesterPub :: seen)
        (att.type :: satisfied) (validCount + 1)

/-- Check a set of attestations against a quorum policy for one claim. -/
def checkQuorum (P : Primitives F) (attestations : List TypedAttestation) (claimHash : Hex)
    (policy : QuorumPolicy) : QuorumResult :=
  let (satisfied, validCount) := countAttestations P claimHash policy attestations [] [] 0
  if validCount < policy.min then
    ⟨false, validCount, some ("quorum not met: " ++ toString validCount ++ "/" ++
      toString policy.min ++ " valid attestations")⟩
  else
    let missing := (policy.requiredTypes.getD []).filter fun t => !satisfied.contains t
    if missing.isEmpty then ⟨true, validCount, none⟩
    else ⟨false, validCount,
      some ("missing required attestation type(s): " ++ ", ".intercalate missing)⟩

/-! ## Nullifiers and commitments -/

/-- Bind a human's nullifier to an account key. -/
def deriveCommitment (P : Primitives F) (nullifier accountPub : Hex) : Hex :=
  hashHex P (utf8ToBytes ("identity " ++ nullifier ++ " " ++ accountPub))

/-- `InMemoryIdentityRegistry`: the consumed nullifiers and their commitments. -/
abbrev IdentityRegistry := JsMap Hex Hex

/-- `register(nullifier, commitment, accountPub)`: the new registry, or the reason it refuses. -/
def IdentityRegistry.register (P : Primitives F) (used : IdentityRegistry)
    (nullifier commitment accountPub : Hex) : Except String IdentityRegistry :=
  if used.has nullifier then .error "nullifier already used (one human, one account)"
  else if deriveCommitment P nullifier accountPub ≠ commitment then
    .error "commitment does not bind nullifier to account key"
  else .ok (used.set nullifier commitment)

end NeuronWeb
