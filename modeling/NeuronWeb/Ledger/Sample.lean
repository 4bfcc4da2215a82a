/-
  Ledger/Sample: blocks signed with the sample primitives.

  `continuing L c` is the block an account signs on top of the chain that `L` holds for
  it.  It is authentic and names the right accumulator root whatever its content is, so
  what the ledger makes of it is decided by the linkage checks and by its type's rule.
-/
import NeuronWeb.Sample
import NeuronWeb.Ledger.Effects

set_option autoImplicit false

namespace NeuronWeb.Sample

/-- A ledger that asks for no attestation. -/
def config : LedgerConfig := { identityPolicy := ⟨0, none, none⟩ }

/-- The accumulator `L` holds for an account. -/
def accumulatorOf (L : EngineLedger Rat) (pub : Hex) : AccountAccumulator :=
  ((L.held.get? pub).map Held.acc).getD []

/-- The block `content.accountId` signs on top of the chain that `L` holds for it. -/
def continuing (L : EngineLedger Rat) (content : BlockContent Rat) : Block Rat :=
  let hash := computeContentHash primitives content
  let accumulatorRoot := AccountAccumulator.rootHex primitives
    (((accumulatorOf L content.accountId).append hash).getD [])
  { toBlockContent := content, accumulatorRoot, hash
    signature := signature (blockSigningMessage hash accumulatorRoot) content.accountId }

/-- The header of the next block of an account: an `update` that keeps the balance. -/
def header (L : EngineLedger Rat) (pub : Hex) : BlockContent Rat :=
  match L.getAccountHead pub with
  | some head => EngineLedger.nextContent head pub .update 0 head.balance
  | none =>
    { accountId := pub, index := 0, type := .open, previousHash := GENESIS_PREV, shard := 0,
      timestamp := 0, balance := MINT }

theorem verifyBlock_continuing (L : EngineLedger Rat) (content : BlockContent Rat) :
    verifyBlock primitives (continuing L content) = true := by
  simp [verifyBlock_iff, continuing, verifyBlockSignature, primitives]

end NeuronWeb.Sample
