/-
  Network/ProviderLookup: asking several relays for storage providers (`fetchProviders` in
  `network/account-resolver.ts`).

  The rows of all relays go into one map under the hash that each row DECLARES, and the last row
  under a hash stays. So a row that declares the hash of a genuine block, and is served after
  it, stands in for that block and is dropped later.
-/
import NeuronWeb.Content.FileIndex
import NeuronWeb.Content.ProviderDiscovery
import NeuronWeb.Transparent

set_option autoImplicit false

namespace NeuronWeb

variable {F : Type}

/-! ## The union of the answers -/

/-- A row that can be decoded: the hash it declares, and the block it is.  The source casts
what it parses; a row whose fields have other types than those of a block is none here, and
is taken for one that does not verify. -/
structure ServedBlock (F : Type) where
  hash : Hex
  block : Option (Block F)
  declared : ∀ b, block = some b → b.hash = hash

/-- The blocks among the rows. -/
def blocksOf (rows : List (ServedBlock F)) : List (Block F) := rows.filterMap (·.block)

/-- `r` is served, and no row after it declares its hash. -/
def LastRow (rows : List (ServedBlock F)) (r : ServedBlock F) : Prop :=
  ∃ before after, rows = before ++ r :: after ∧ ∀ x ∈ after, x.hash ≠ r.hash

/-- `b` is served by a last row. -/
def Kept (rows : List (ServedBlock F)) (b : Block F) : Prop :=
  ∃ r, LastRow rows r ∧ r.block = some b

section Merge

variable {decode : Json F → Option (ServedBlock F)}

variable {rows : List (ServedBlock F)}

theorem mem_blocksOf {b : Block F} : b ∈ blocksOf rows ↔ ∃ r ∈ rows, r.block = some b := by
  simp [blocksOf]

theorem Kept.mem {b : Block F} (h : Kept rows b) : b ∈ blocksOf rows := by
  obtain ⟨r, ⟨before, after, rfl, _⟩, hb⟩ := h
  exact mem_blocksOf.mpr ⟨r, by simp, hb⟩

end Merge

/-! ## When all of it counts -/

variable [JsNumber F]

section Lookup

variable {P : Primitives F} (hsha : Function.Injective P.sha256) (hjson : FaithfulJson P)
  {decode : Json F → Option (ServedBlock F)} {results : List (Option (Json F))}

include hsha hjson

end Lookup

/-! ## A copied hash -/

namespace Sample

def registerContent : BlockContent Rat where
  accountId := "alice"
  index := 1
  type := .storageRegister
  previousHash := "00"
  shard := 0
  timestamp := 3
  balance := 0
  storage := some { capacityGB := some 5, deviceId := some "disk" }

/-- The register that alice signed. -/
def registered : Block Rat where
  toBlockContent := registerContent
  accumulatorRoot := "root"
  hash := computeContentHash serial registerContent
  signature := signature
    (blockSigningMessage (computeContentHash serial registerContent) "root") "alice"

/-- A block that declares the hash of the register, and that nobody signed. -/
def copied : Block Rat := { registered with signature := "forged" }

def served (b : Block Rat) : ServedBlock Rat where
  hash := b.hash
  block := some b
  declared b' h := by rw [Option.some.inj h]

end Sample

end NeuronWeb
