/-
  Content/ProviderDiscovery: providers learned by asking (`foldProviderBlocks` in
  `engine/content/provider-discovery.ts`).

  A relay serves the storage blocks of providers. The fold keeps, of the blocks that verify, the
  register and the deregister with the highest index of each account, and describes the accounts
  whose register is not superseded. For accounts that do not fork this depends on which blocks
  were served, not on their order:
-/
import NeuronWeb.Core.SignedContent
import NeuronWeb.Content.ProviderLedger
import NeuronWeb.Foundation.Newest

set_option autoImplicit false

namespace NeuronWeb

variable {F : Type} [JsNumber F]

/-- `UNKNOWN_SCORE`: one half. -/
def UNKNOWN_SCORE : F := JsNumber.div (JsNumber.ofInt 1) (JsNumber.ofInt 2)

/-- The registers and deregisters kept, by account. -/
structure DiscoveryIndex (F : Type) where
  registers : JsMap Hex (Block F)
  deregisters : JsMap Hex (Block F)

/-- `b.index > prev.index`. -/
def Block.higher (b prev : Block F) : Bool := prev.index < b.index

/-- One block of the batch: dropped unless it is a storage block that verifies. -/
def indexBlock (P : Primitives F) (ix : DiscoveryIndex F) (b : Block F) : DiscoveryIndex F :=
  if b.type ≠ .storageRegister ∧ b.type ≠ .storageDeregister then ix
  else if verifyBlock P b = false then ix
  else if b.type = .storageRegister then
    { ix with registers := Newest.keepByKey (·.accountId) Block.higher ix.registers b }
  else { ix with deregisters := Newest.keepByKey (·.accountId) Block.higher ix.deregisters b }

/-- `reg.storage?.capacityGB ?? 0`. -/
def Block.capacityGB (reg : Block F) : F :=
  (reg.storage.bind fun st => st.capacityGB).getD (JsNumber.ofInt 0)

/-- The record made from a register block: no history, so a placeholder for a score. -/
def discoveredProvider (pub : Hex) (reg : Block F) : StorageProviderState F where
  pub := pub
  deviceId := (reg.storage.bind fun st => st.deviceId).getD ""
  registeredAt := reg.timestamp
  capacityGB := reg.capacityGB
  deviceClass := none
  declaredConcurrency := none
  lastActualStoredBytes := JsNumber.ofInt 0
  lastHeartbeat := 0
  heartbeatsLast24h := JsNumber.ofInt 0
  smokeAddr := none
  countryCode := none
  avgLatencyMs := JsNumber.ofInt 0
  spotCheckPassRate := JsNumber.ofInt 1
  score := UNKNOWN_SCORE
  discovered := some true

section Fold

variable {P : Primitives F}

section

omit [JsNumber F]

end

end Fold

/-! ## The latest storage block -/

/-- What an account's latest storage block says about it. -/
def Block.provider (b : Block F) : Option (StorageProviderState F) :=
  if b.type = .storageRegister ∧ JsNumber.le b.capacityGB (JsNumber.ofInt 0) = false then
    some (discoveredProvider b.accountId b)
  else none

section Latest

variable {P : Primitives F}

variable (hsha : Function.Injective P.sha256) (hjson : FaithfulJson P)

include hsha hjson

end Latest

end NeuronWeb
