/-
  Content/ContentStore: the quota-aware content store, one call at a time
  (`engine/content/content-store.ts`, `chunking.ts`, `cid.ts`, `backend.ts`).

  A backend is the map of the blocks it holds; an operation on it takes effect at once.
  The store counts what it added in `bytesUsed`.  Calls that overlap are the subject of
  another file.
-/
import NeuronWeb.Core.Hash
import NeuronWeb.Foundation.MapSum

set_option autoImplicit false

namespace NeuronWeb

variable {F : Type}

/-! ## Content addressing -/

/-- `Cid = Hex`. -/
abbrev Cid := Hex

def cidOf (P : Primitives F) (bytes : Bytes) : Cid := hashHex P bytes

structure ChunkRef where
  cid : Cid
  size : Nat
  deriving DecidableEq

structure Manifest where
  /-- Addresses the whole file. -/
  cid : Cid
  size : Nat
  chunkSize : Nat
  chunks : List ChunkRef
  deriving DecidableEq

/-- A chunk and its address. -/
structure Chunk where
  cid : Cid
  bytes : Bytes
  deriving DecidableEq

/-- The loop of `chunkContent`: cut `chunkSize` bytes off until none are left. -/
def chunksOf (P : Primitives F) (chunkSize : Nat) : Nat → Bytes → List Chunk
  | 0, _ => []
  | fuel + 1, bytes =>
    if bytes.isEmpty then []
    else
      let part := bytes.take chunkSize
      { cid := cidOf P part, bytes := part } ::
        chunksOf P chunkSize fuel (bytes.drop chunkSize)

def ChunkRef.toJson (c : ChunkRef) : Json F :=
  .obj [("cid", .str c.cid), ("size", .int c.size)]

/-- `chunkContent`; `none` when the chunk size is not positive and it throws. -/
def chunkContent (P : Primitives F) (bytes : Bytes) (chunkSize : Nat) :
    Option (Manifest × List Chunk) :=
  if chunkSize = 0 then none
  else
    let chunks := chunksOf P chunkSize bytes.length bytes
    let refs := chunks.map fun c => { cid := c.cid, size := c.bytes.length : ChunkRef }
    let cid := hashJson P (.obj [("size", .int bytes.length), ("chunkSize", .int chunkSize),
      ("chunks", .arr (refs.map ChunkRef.toJson))])
    some ({ cid, size := bytes.length, chunkSize, chunks := refs }, chunks)

section Chunks

variable {P : Primitives F}

theorem length_le_of_mem_chunksOf {chunkSize : Nat} : ∀ {fuel : Nat} {bytes : Bytes} {c : Chunk},
    c ∈ chunksOf P chunkSize fuel bytes → c.bytes.length ≤ chunkSize
  | 0, _, _, h => absurd h List.not_mem_nil
  | fuel + 1, bytes, c, h => by
    rw [chunksOf] at h
    split at h
    · exact absurd h List.not_mem_nil
    · rcases List.mem_cons.mp h with rfl | h
      · exact List.length_take_le _ _
      · exact length_le_of_mem_chunksOf h

theorem chunks_of_chunkContent {chunkSize : Nat} {bytes : Bytes} {manifest : Manifest}
    {chunks : List Chunk} (h : chunkContent P bytes chunkSize = some (manifest, chunks)) :
    chunks = chunksOf P chunkSize bytes.length bytes := by
  unfold chunkContent at h
  split at h
  · cases h
  · cases h
    rfl

end Chunks

/-! ## Backends -/

/-- The blocks that a `BlockBackend` holds. -/
abbrev Backend := JsMap Cid Bytes

namespace Backend

/-- `put(cid, bytes)`: the bytes actually added, none when the block was held already. -/
def put (m : Backend) (cid : Cid) (bytes : Bytes) : Backend × Nat :=
  if m.has cid then (m, 0) else (m.set cid bytes, bytes.length)

/-- `delete(cid)`: the bytes freed. -/
def remove (m : Backend) (cid : Cid) : Backend × Nat :=
  match m.get? cid with
  | none => (m, 0)
  | some held => (JsMap.delete m cid, held.length)

/-- `bytesUsed()`: the total size of the blocks held. -/
def bytesUsed (m : Backend) : Nat := m.total List.length

end Backend

/-! ## The store -/

inductive StoreResult where
  | ok (manifest : Option Manifest)
  | refused (reason : String)
  deriving DecidableEq

structure ContentStore where
  quotaBytes : Nat
  chunkSize : Nat
  bytesUsed : Int
  backend : Backend

namespace ContentStore

def available (s : ContentStore) : Int := s.quotaBytes - s.bytesUsed

/-- The refusal of a block larger than a chunk. -/
def tooLarge (s : ContentStore) (bytes : Bytes) : String :=
  "blob " ++ toString bytes.length ++ "B exceeds chunk size " ++ toString s.chunkSize ++
    "B — must be chunked"

/-- The refusal of a block that does not fit. -/
def quotaExceeded (s : ContentStore) (bytes : Bytes) : String :=
  "quota exceeded (need " ++ toString bytes.length ++ "B, " ++ toString s.available ++ "B free)"

/-- `putBlock(cid, bytes)`. -/
def putBlock (s : ContentStore) (cid : Cid) (bytes : Bytes) : ContentStore × StoreResult :=
  if bytes.length > s.chunkSize then (s, .refused (s.tooLarge bytes))
  else if s.backend.has cid then (s, .ok none)
  else if s.bytesUsed + bytes.length > s.quotaBytes then (s, .refused (s.quotaExceeded bytes))
  else
    let (backend, added) := s.backend.put cid bytes
    ({ s with backend, bytesUsed := s.bytesUsed + added }, .ok none)

/-- A block is accepted: it is no larger than a chunk, and it is held already or fits. -/
def Fits (s : ContentStore) (cid : Cid) (bytes : Bytes) : Prop :=
  bytes.length ≤ s.chunkSize ∧
    (s.backend.has cid = true ∨ s.bytesUsed + bytes.length ≤ s.quotaBytes)

/-- Every block is held under its own address. -/
def WellAddressed (P : Primitives F) (s : ContentStore) : Prop :=
  ∀ cid bytes, s.backend.get? cid = some bytes → cidOf P bytes = cid

/-- What is held stays held. -/
def Extends (s s' : ContentStore) : Prop :=
  ∀ cid bytes, s.backend.get? cid = some bytes → s'.backend.get? cid = some bytes

theorem Extends.refl (s : ContentStore) : s.Extends s := fun _ _ h => h

theorem putBlock_backend (s : ContentStore) (cid : Cid) (bytes : Bytes) :
    (s.putBlock cid bytes).1.backend = s.backend ∨
      (s.backend.get? cid = none ∧
        (s.putBlock cid bytes).1.backend = s.backend.set cid bytes) := by
  unfold putBlock
  split
  · exact .inl rfl
  · split
    · exact .inl rfl
    · rename_i hfresh
      have hfresh : s.backend.has cid = false := by simpa using hfresh
      split
      · exact .inl rfl
      · refine .inr ⟨(JsMap.has_eq_false_iff _ _).mp hfresh, ?_⟩
        simp only [Backend.put, hfresh, Bool.false_eq_true, if_false]

theorem extends_putBlock (s : ContentStore) (cid : Cid) (bytes : Bytes) :
    s.Extends (s.putBlock cid bytes).1 := by
  intro cid' bytes' h
  rcases s.putBlock_backend cid bytes with hsame | ⟨hfresh, hset⟩
  · rwa [hsame]
  · have hne : cid ≠ cid' := by
      intro heq
      rw [heq, h] at hfresh
      cases hfresh
    rwa [hset, JsMap.get?_set_ne _ _ hne]

theorem wellAddressed_putBlock {P : Primitives F} {s : ContentStore} (h : s.WellAddressed P)
    (bytes : Bytes) : (s.putBlock (cidOf P bytes) bytes).1.WellAddressed P := by
  intro cid' bytes' hget
  rcases s.putBlock_backend (cidOf P bytes) bytes with hsame | ⟨-, hset⟩
  · rw [hsame] at hget
    exact h cid' bytes' hget
  · rw [hset, JsMap.get?_set] at hget
    split at hget
    · rename_i hcid
      cases hget
      exact hcid
    · exact h cid' bytes' hget

theorem putBlock_of_fits {P : Primitives F} (hP : Function.Injective P.sha256)
    {s : ContentStore} (h : s.WellAddressed P) {bytes : Bytes}
    (hfits : s.Fits (cidOf P bytes) bytes) :
    (s.putBlock (cidOf P bytes) bytes).2 = .ok none ∧
      (s.putBlock (cidOf P bytes) bytes).1.backend.get? (cidOf P bytes) = some bytes := by
  obtain ⟨hsmall, hroom⟩ := hfits
  unfold putBlock
  rw [if_neg (by omega)]
  split
  · rename_i hheld
    obtain ⟨bytes', hget⟩ := (JsMap.has_iff _ _).mp hheld
    have hbytes : bytes' = bytes := hP (bytesToHex_injective (h _ _ hget))
    exact ⟨rfl, hbytes ▸ hget⟩
  · rename_i hfresh
    have hfresh : s.backend.has (cidOf P bytes) = false := by simpa using hfresh
    rw [hfresh] at hroom
    have hroom : s.bytesUsed + bytes.length ≤ s.quotaBytes := by simpa using hroom
    rw [if_neg (by omega)]
    simp only [Backend.put, hfresh, Bool.false_eq_true, if_false, JsMap.get?_set_self, and_self]

end ContentStore

end NeuronWeb
