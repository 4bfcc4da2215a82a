/-
  Storage/ContentReaders: the readers of stored content (`network/smoke-store.ts`).

  A manifest lies in `/blocks` and names the chunks of a large file, or the one block of a small
  one. `retrieveWithMeta`, `retrieveWithMetaPublic` and `retrieveAuto` give the whole content,
  `retrieveStream` its chunks one after the other, and `getChunkBytes` a range of it, of which
  it reads the chunks that overlap.
-/
import NeuronWeb.Foundation.Slices
import NeuronWeb.Storage.ContentAddressed

set_option autoImplicit false

namespace NeuronWeb

variable {F Key α β : Type}

/-! ## Encryption and manifests -/

/-- AES-GCM under a content key. -/
structure ContentCipher (Key : Type) where
  /-- `encryptBytes(data, aesKey)`, with the IV that it draws. -/
  encrypt : Key → Bytes → Bytes → Bytes
  /-- `decryptBytes(data, aesKey)`. -/
  decrypt : Key → Bytes → Option Bytes

/-- What was encrypted under a key is decrypted under it. -/
structure ContentCipher.Lawful (A : ContentCipher Key) : Prop where
  decrypt_encrypt : ∀ key iv data, A.decrypt key (A.encrypt key iv data) = some data

/-- What the readers use of a `ContentMeta`. -/
structure StoredMeta where
  size : Int
  encrypted : Bool
  contentCid : Option Cid
  streamChunks : List Cid
  deriving DecidableEq

/-- The CIDs of `streamChunks`. -/
def streamChunkCids : Option (Json F) → Option (List Cid)
  | some (.arr chunks) => chunks.mapM fun chunk => Json.asString (chunk.property "cid")
  | _ => some []

/-- The manifest that was parsed. -/
def readMeta (v : Json F) : Option StoredMeta :=
  match v.property "size", v.property "encrypted", streamChunkCids (v.property "streamChunks") with
  | some (.int size), some (.bool encrypted), some streamChunks =>
    some ⟨size, encrypted, (Json.asString (v.property "contentCid")).filter (· ≠ ""),
      streamChunks⟩
  | _, _, _ => none

/-- `data.subarray(begin, end)`, of offsets that are not negative. -/
def subarray (data : Bytes) (start stop : Int) : Bytes := (data.take stop.toNat).drop start.toNat

/-! ## Reading blocks -/

/-- A call of the store; `none` when it throws. -/
abbrev StoreCall (α : Type) : Type := StateT SmokeStore Option α

namespace SmokeStore

variable (peers : Cid → Option Bytes)

/-- `try { … } catch { return undefined }`. -/
def tried (call : StoreCall α) : StoreCall (Option α) := fun s =>
  match call.run s with
  | some (a, s') => some (some a, s')
  | none => some (none, s)

/-- Retrieve raw bytes: from the smoke file system, from OPFS, or from a peer. -/
def retrieve (cid : Cid) : StoreCall Bytes := fun s =>
  match s.getBlock cid with
  | some data => some (data, s)
  | none => (peers cid).map fun data => (data, s.route cid data)

/-- A chunk: from OPFS, or retrieved. -/
def readChunk (cid : Cid) : StoreCall Bytes := fun s =>
  match s.readFromOPFS cid with
  | some data => some (data, s)
  | none => (retrieve peers cid).run s

/-- A chunk of a stream: one that is retrieved is cached in OPFS. -/
def pullChunk (cid : Cid) : StoreCall Bytes := fun s =>
  match s.readFromOPFS cid with
  | some data => some (data, s)
  | none => ((retrieve peers cid).run s).map fun r => (r.1, r.2.writeToOPFS cid r.1)

variable (A : ContentCipher Key) (parse : Bytes → Option (Json F))

def retrieveDecrypted (cid : Cid) (key : Key) : StoreCall (Option Bytes) := do
  let encrypted ← tried (retrieve peers cid)
  return encrypted.bind (A.decrypt key)

/-- `retrieveJSON` of a manifest. -/
def retrieveJSON (cid : Cid) (key : Key) : StoreCall (Option StoredMeta) := do
  let bytes ← retrieveDecrypted peers A cid key
  return (bytes.bind parse).bind readMeta

/-- A manifest that is not encrypted. -/
def retrievePlainMeta (cid : Cid) : StoreCall (Option StoredMeta) := do
  let bytes ← tried (retrieve peers cid)
  return (bytes.bind parse).bind readMeta

/-- The manifest as `retrieveStream` and `getChunkBytes` read it: encrypted first, when there
are keys. -/
def openManifest (metaCid : Cid) (keys : Option Key) : StoreCall (Option StoredMeta) := do
  let encrypted ← match keys with
    | some key => retrieveJSON peers A parse metaCid key
    | none => pure none
  match encrypted with
  | some found => return some found
  | none => retrievePlainMeta peers parse metaCid

/-- `aesKey` of `retrieveStream` and `getChunkBytes`, applied to a chunk. -/
def decode (keys : Option Key) (encrypted : Bool) (raw : Bytes) : Option Bytes :=
  match keys with
  | some key => if encrypted then A.decrypt key raw else some raw
  | none => some raw

/-! ## The whole content -/

/-- The chunks, put together; `undefined` as soon as one does not decrypt. -/
def assemble (open_ : Bytes → Option Bytes) : List Cid → StoreCall (Option (List Bytes))
  | [] => return some []
  | cid :: rest => do
    let raw ← readChunk peers cid
    match open_ raw with
    | none => return none
    | some plain => return (← assemble open_ rest).map fun parts => plain :: parts

def retrieveWithMeta (metaCid : Cid) (key : Key) : StoreCall (Option (Bytes × StoredMeta)) := do
  match ← retrieveJSON peers A parse metaCid key with
  | none => return none
  | some found =>
    if found.streamChunks.isEmpty then
      match found.contentCid with
      | none => return none
      | some cid =>
        return (← retrieveDecrypted peers A cid key).map fun data => (data, found)
    else
      return (← assemble peers (A.decrypt key) found.streamChunks).map fun parts =>
        (parts.flatten, found)

def retrieveWithMetaPublic (metaCid : Cid) : StoreCall (Option (Bytes × StoredMeta)) := do
  match ← retrievePlainMeta peers parse metaCid with
  | none => return none
  | some found =>
    if found.streamChunks.isEmpty then
      match found.contentCid with
      | none => return none
      | some cid => return (← tried (retrieve peers cid)).map fun data => (data, found)
    else
      return ((← tried (assemble peers some found.streamChunks)).join).map fun parts =>
        (parts.flatten, found)

/-- The content, its manifest, and `wasEncrypted`. -/
def retrieveAuto (metaCid : Cid) (keys : Option Key) :
    StoreCall (Option (Bytes × StoredMeta × Bool)) := do
  let encrypted ← match keys with
    | some key => retrieveWithMeta peers A parse metaCid key
    | none => pure none
  match encrypted with
  | some (data, found) => return some (data, found, true)
  | none =>
    return (← retrieveWithMetaPublic peers parse metaCid).map fun r => (r.1, r.2, false)

/-! ## Streams and ranges -/

/-- What a consumer gets who pulls the stream to its end; an error of the stream is thrown. -/
def pullAll (open_ : Bytes → Option Bytes) : List Cid → StoreCall (List Bytes)
  | [] => return []
  | cid :: rest => do
    let raw ← pullChunk peers cid
    match open_ raw with
    | none => failure
    | some plain => return plain :: (← pullAll open_ rest)

def retrieveStream (metaCid : Cid) (keys : Option Key) :
    StoreCall (Option (List Bytes × StoredMeta)) := do
  match ← openManifest peers A parse metaCid keys with
  | none => return none
  | some found =>
    if found.streamChunks.isEmpty then
      let data ← match keys, found.encrypted, found.contentCid with
        | some key, true, some cid => retrieveDecrypted peers A cid key
        | some _, true, none => pure none
        | _, _, some cid => some <$> retrieve peers cid
        | _, _, none => pure none
      return some (data.toList, found)
    else
      let parts ← pullAll peers (decode A keys found.encrypted) found.streamChunks
      return some (parts, found)

/-- The part of one chunk, whose plain bytes are `plainOffset … chunkEnd`, that lies in the
range. -/
def overlap (open_ : Bytes → Option Bytes) (start stop plainOffset chunkEnd : Int) (cid : Cid) :
    StoreCall (List Bytes) :=
  if start ≤ chunkEnd ∧ plainOffset ≤ stop then do
    let raw ← readChunk peers cid
    match open_ raw with
    | none => failure
    | some plain =>
      return [subarray plain (max 0 (start - plainOffset))
        (min (plain.length : Int) (stop - plainOffset + 1))]
  else return []

/-- The loop of `getChunkBytes`, from `plainOffset` on. -/
def overlapping (open_ : Bytes → Option Bytes) (size start stop : Int) :
    Int → List Cid → StoreCall (List Bytes)
  | _, [] => return []
  | plainOffset, cid :: rest => do
    let plainChunkSize := min (STREAM_CHUNK_SIZE : Int) (size - plainOffset)
    let part ← overlap peers open_ start stop plainOffset (plainOffset + plainChunkSize - 1) cid
    if stop < plainOffset + plainChunkSize then return part
    else return part ++ (← overlapping open_ size start stop (plainOffset + plainChunkSize) rest)

/-- The bytes `start … stop` of a large file. -/
def getChunkBytes (metaCid : Cid) (start stop : Int) (keys : Option Key) :
    StoreCall (Option Bytes) := do
  match ← openManifest peers A parse metaCid keys with
  | none => return none
  | some found =>
    if found.streamChunks.isEmpty then return none
    else
      let parts ← overlapping peers (decode A keys found.encrypted) found.size start stop 0
        found.streamChunks
      return some parts.flatten

end SmokeStore

end NeuronWeb
