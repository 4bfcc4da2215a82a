import NeuronWeb.Core.Hash

set_option autoImplicit false

/-!
# The account accumulator (`engine/core/accumulator.ts`)

The RFC 6962 Merkle tree over an account's block hashes. Counters are whole numbers: up to `2 ^
30` leaves the 32-bit operators of the source do the same, and `Core/WordAccumulator` says what
they do above.
-/

namespace NeuronWeb

variable {F : Type}

def leafHash (P : Primitives F) (data : Bytes) : Bytes := P.sha256 (0x00 :: data)

def nodeHash (P : Primitives F) (left right : Bytes) : Bytes :=
  P.sha256 (0x01 :: (left ++ right))

/-- The loop of `splitPoint`: double `k` while `2 * k < n`. -/
def splitLoop : Nat → Nat → Nat → Nat
  | 0, k, _ => k
  | fuel + 1, k, n => if 2 * k < n then splitLoop fuel (2 * k) n else k

/-- Largest power of two strictly less than `n` (for `n > 1`). -/
def splitPoint (n : Nat) : Nat := splitLoop n 1 n

def merkleRootFuel (P : Primitives F) : Nat → List Bytes → Bytes
  | 0, _ => P.sha256 []
  | _ + 1, [] => P.sha256 []
  | _ + 1, [leaf] => leafHash P leaf
  | fuel + 1, leaves =>
    let k := splitPoint leaves.length
    nodeHash P (merkleRootFuel P fuel (leaves.take k)) (merkleRootFuel P fuel (leaves.drop k))

/-- RFC 6962 Merkle tree hash over a list of leaves. -/
def merkleRoot (P : Primitives F) (leaves : List Bytes) : Bytes :=
  merkleRootFuel P (leaves.length + 1) leaves

/-- The recursion of `merkleProof`; the fuel bounds the number of leaves. -/
def merkleProofFuel (P : Primitives F) : Nat → List Bytes → Nat → List Bytes
  | 0, _, _ => []
  | fuel + 1, leaves, index =>
    if leaves.length = 1 then []
    else
      let k := splitPoint leaves.length
      if index < k then
        merkleProofFuel P fuel (leaves.take k) index ++ [merkleRoot P (leaves.drop k)]
      else
        merkleProofFuel P fuel (leaves.drop k) (index - k) ++ [merkleRoot P (leaves.take k)]

/-- RFC 6962 audit path of a leaf; `none` when the index is out of range and it throws. -/
def merkleProof (P : Primitives F) (leaves : List Bytes) (index : Int) : Option (List Bytes) :=
  if index < 0 ∨ leaves.length ≤ index then none
  else some (merkleProofFuel P leaves.length leaves index.toNat)

/-- The inner `do … while` of `verifyMerkleProof`: shift both counters until the
first is odd or zero. -/
def shiftCounters : Nat → Nat → Nat → Nat × Nat
  | 0, fn, sn => (fn, sn)
  | fuel + 1, fn, sn =>
    let fn := fn / 2
    let sn := sn / 2
    if fn % 2 = 0 ∧ fn ≠ 0 then shiftCounters fuel fn sn else (fn, sn)

/-- The loop of `verifyMerkleProof` over the audit path: the last counter and the
root reached, or `none` when the path is longer than the tree is deep. -/
def foldAuditPath (P : Primitives F) : List Bytes → Nat → Nat → Bytes → Option (Nat × Bytes)
  | [], _, sn, r => some (sn, r)
  | p :: rest, fn, sn, r =>
    if sn = 0 then none
    else if fn % 2 = 1 ∨ fn = sn then
      let (fn', sn') := if fn % 2 = 0 then shiftCounters (fn + 1) fn sn else (fn, sn)
      foldAuditPath P rest (fn' / 2) (sn' / 2) (nodeHash P p r)
    else foldAuditPath P rest (fn / 2) (sn / 2) (nodeHash P r p)

/-- RFC 6962 §2.1.1 inclusion-proof verification. -/
def verifyMerkleProof (P : Primitives F) (root leaf : Bytes) (index treeSize : Int)
    (proof : List Bytes) : Bool :=
  if index < 0 ∨ treeSize ≤ index then false
  else if treeSize = 1 then proof.isEmpty && leafHash P leaf == root
  else
    match foldAuditPath P proof index.toNat (treeSize.toNat - 1) (leafHash P leaf) with
    | some (sn, r) => sn == 0 && r == root
    | none => false

/-- Hex-friendly inclusion check; `none` when a string is not hex and it throws. -/
def verifyInclusion (P : Primitives F) (rootHex leaf : Hex) (index treeSize : Int)
    (proofHex : List Hex) : Option Bool :=
  match hexToBytes rootHex, hexToBytes leaf, proofHex.mapM hexToBytes with
  | some root, some leafBytes, some proof =>
    some (verifyMerkleProof P root leafBytes index treeSize proof)
  | _, _, _ => none

/-! ## The stateful accumulator -/

/-- `AccountAccumulator`: the leaves appended so far. -/
abbrev AccountAccumulator := List Bytes

namespace AccountAccumulator

/-- `append(leaf)`, which throws on a leaf that is not hex. -/
def append (acc : AccountAccumulator) (leaf : Hex) : Option AccountAccumulator :=
  (hexToBytes leaf).map fun bytes => acc ++ [bytes]

/-- `rootHex()`. -/
def rootHex (P : Primitives F) (acc : AccountAccumulator) : Hex :=
  bytesToHex (merkleRoot P acc)

/-- `rootWithHex(leaf)`: the root if `leaf` were appended. -/
def rootWithHex (P : Primitives F) (acc : AccountAccumulator) (leaf : Hex) : Option Hex :=
  (acc.append leaf).map (rootHex P)

/-- `proofHex(index)`: the audit path of the leaf at `index`. -/
def proofHex (P : Primitives F) (acc : AccountAccumulator) (index : Int) : Option (List Hex) :=
  (merkleProof P acc index).map fun proof => proof.map bytesToHex

end AccountAccumulator

end NeuronWeb
