/-
  Storage/SmokeStore: the local block store and its traffic with peers
  (`network/smoke-store.ts`).

  Blocks lie in two places under their CID: in `/blocks` of the smoke file system, and, when
  they are large, in the OPFS directory.

  A request to a peer is answered later, by whatever bytes the peer likes, or never. So a call
  that needs peers leaves a `Fetch` behind, and the answers are calls of their own, in any order
  and between any other calls.
-/
import NeuronWeb.Content.ContentStore
import NeuronWeb.Content.FileIndex
import NeuronWeb.Foundation.Run

set_option autoImplicit false

namespace NeuronWeb

variable {F : Type}

/-! ## Content addresses -/

/-- The base32 character of five bits. -/
def base32Digit (n : Nat) : Char := if n < 26 then Char.ofNat (97 + n) else Char.ofNat (24 + n)

/-- The bits of some bytes, the highest first. -/
def bytesBits (bytes : Bytes) : List Bool :=
  bytes.flatMap fun b => [7, 6, 5, 4, 3, 2, 1, 0].map b.toNat.testBit

def bitsValue (bits : List Bool) : Nat := bits.foldl (fun n b => 2 * n + b.toNat) 0

def base32Chars : List Bool → List Char
  | [] => []
  | a :: b :: c :: d :: e :: rest => base32Digit (bitsValue [a, b, c, d, e]) :: base32Chars rest
  | bits => [base32Digit (bitsValue bits * 2 ^ (5 - bits.length))]

/-- `CID.createV1(raw.code, sha256(data)).toString()`. -/
def computeCID (P : Primitives F) (data : Bytes) : Cid :=
  let digest := P.sha256 data
  "b" ++ String.ofList
    (base32Chars (bytesBits ([0x01, 0x55, 0x12, UInt8.ofNat digest.length] ++ digest)))

/-! ## The state -/

/-- Peer addresses retained as block-fetch fallbacks. -/
def MAX_PEER_FALLBACKS : Nat := 256

/-- Peers raced in parallel for one block. -/
def MAX_PARALLEL_FETCH : Nat := 8

/-- Files above this size are stored in chunks. -/
def STREAM_CHUNK_SIZE : Nat := 8 * 1024 * 1024

/-- Fetched blocks from this size on go to OPFS. -/
def OPFS_WRITE_THRESHOLD : Nat := 4 * 1024 * 1024

structure SmokeStore where
  /-- `/blocks`. -/
  blocks : JsMap Cid Bytes
  /-- The OPFS directory; `none` where the browser has none. -/
  opfsBlocks : Option (JsMap Cid Bytes)
  /-- `/cached`: the markers of what is held for others. -/
  cached : JsSet Cid
  /-- `/cached-meta`: the `uploaderPub` of a cached block. -/
  cachedMeta : JsMap Cid Hex
  /-- `/chunk-index`. -/
  chunkIndex : JsMap Cid (List Cid)
  /-- `/cache-groups`. -/
  cacheGroups : JsMap Cid (List Cid)
  /-- The oldest first. -/
  peerFallbacks : List String

namespace SmokeStore

/-- An empty store, with or without OPFS. -/
def new (opfs : Bool) : SmokeStore :=
  ⟨JsMap.empty, if opfs then some JsMap.empty else none, JsMap.empty, JsMap.empty, JsMap.empty,
    JsMap.empty, []⟩

def addPeerFallback (s : SmokeStore) (addr : String) : SmokeStore :=
  if addr = "" then s
  else
    let peers := s.peerFallbacks.filter (· ≠ addr) ++ [addr]
    { s with peerFallbacks := peers.drop (peers.length - MAX_PEER_FALLBACKS) }

def touchPeerFallback (s : SmokeStore) (addr : String) : SmokeStore :=
  if s.peerFallbacks.contains addr then s.addPeerFallback addr else s

/-! ## OPFS and the side indexes -/

def writeToOPFS (s : SmokeStore) (cid : Cid) (data : Bytes) : SmokeStore :=
  { s with opfsBlocks := s.opfsBlocks.map fun files => files.set cid data }

def readFromOPFS (s : SmokeStore) (cid : Cid) : Option Bytes :=
  s.opfsBlocks.bind fun files => files.get? cid

/-- `deleteFromOPFS` of each CID. -/
def deleteFromOPFS (s : SmokeStore) (cids : List Cid) : SmokeStore :=
  { s with opfsBlocks := s.opfsBlocks.map fun files => files.deleteAll cids }

def saveChunkIndex (s : SmokeStore) (metaCid : Cid) (chunkCids : List Cid) : SmokeStore :=
  { s with chunkIndex := s.chunkIndex.set metaCid chunkCids }

/-- Save the sub-CIDs that belong to a cached root CID. -/
def saveCacheGroup (s : SmokeStore) (rootCid : Cid) (subCids : List Cid) : SmokeStore :=
  if subCids.isEmpty then s else { s with cacheGroups := s.cacheGroups.set rootCid subCids }

/-- Large blocks go to OPFS, the others to `/blocks`. -/
def route (s : SmokeStore) (cid : Cid) (data : Bytes) : SmokeStore :=
  if OPFS_WRITE_THRESHOLD ≤ data.length then s.writeToOPFS cid data
  else { s with blocks := s.blocks.set cid data }

/-- Read a block from local storage only. -/
def getBlock (s : SmokeStore) (cid : Cid) : Option Bytes :=
  (s.blocks.get? cid).or (s.readFromOPFS cid)

def markCached (s : SmokeStore) (cid : Cid) (uploaderPub : Option Hex) : SmokeStore :=
  { s with
    cached := JsSet.add s.cached cid
    cachedMeta := match uploaderPub with
      | some pub => if pub = "" then s.cachedMeta else s.cachedMeta.set cid pub
      | none => s.cachedMeta }

def uncache (s : SmokeStore) (cid : Cid) : SmokeStore :=
  { s with cached := s.cached.delete cid }

/-! ## Uploads -/

section Uploads

variable (P : Primitives F)

/-- Store raw bytes in the smoke file system. -/
def store (s : SmokeStore) (data : Bytes) : SmokeStore × Cid :=
  let cid := computeCID P data
  ({ s with blocks := s.blocks.set cid data }, cid)

/-- Split data into chunks, encrypt each with its own call of `encryptBytes`, and store them
to OPFS.  The CID and the size of each chunk. -/
def storeChunks (encrypt : Nat → Bytes → Bytes) (s : SmokeStore) (idx : Nat) (data : Bytes) :
    SmokeStore × List (Cid × Nat) :=
  if data = [] then (s, [])
  else
    let stored := encrypt idx (data.take STREAM_CHUNK_SIZE)
    let cid := computeCID P stored
    let (s, chunks) :=
      storeChunks encrypt (s.writeToOPFS cid stored) (idx + 1) (data.drop STREAM_CHUNK_SIZE)
    (s, (cid, stored.length) :: chunks)
  termination_by data.length
  decreasing_by
    rename_i hdata
    have hlength := List.length_pos_of_ne_nil hdata
    rw [List.length_drop, STREAM_CHUNK_SIZE]
    omega

/-- A stored file: the CID of its manifest and those of its content. -/
structure StoredFile where
  root : Cid
  parts : List Cid
  deriving DecidableEq

/-- What `storeWithMeta` and `storeWithMetaPublic` share: `encrypt` is the encryption of the
one and does nothing in the other. -/
def storeSealed (encrypt : Nat → Bytes → Bytes) (encrypted : Bool) (s : SmokeStore) (data : Bytes)
    (fields : List (String × Json F)) (now : Int) : SmokeStore × StoredFile :=
  let common := fields ++
    [("size", .int data.length), ("encrypted", .bool encrypted), ("timestamp", .int now)]
  if STREAM_CHUNK_SIZE < data.length then
    let (s, chunks) := storeChunks P encrypt s 0 data
    let streamChunks := Json.arr (chunks.map fun c =>
      .obj [("cid", .str c.1), ("size", .int c.2)])
    let manifest := P.encodeJson (.obj (common ++ [("streamChunks", streamChunks)]))
    let (s, metaCid) := store P s (encrypt chunks.length manifest)
    let cids := chunks.map fun c => c.1
    (s.saveChunkIndex metaCid cids, ⟨metaCid, cids⟩)
  else
    let (s, contentCid) := store P s (encrypt 0 data)
    let manifest := P.encodeJson (.obj (common ++ [("contentCid", .str contentCid)]))
    let (s, metaCid) := store P s (encrypt 1 manifest)
    (s, ⟨metaCid, [contentCid]⟩)

/-- `encrypt n` is the `n`-th `encryptBytes` of the call, with its own fresh IV. -/
def storeWithMeta (encrypt : Nat → Bytes → Bytes) (s : SmokeStore) (data : Bytes)
    (fields : List (String × Json F)) (now : Int) : SmokeStore × StoredFile :=
  storeSealed P encrypt true s data fields now

def storeWithMetaPublic (s : SmokeStore) (data : Bytes) (fields : List (String × Json F))
    (now : Int) : SmokeStore × StoredFile :=
  storeSealed P (fun _ bytes => bytes) false s data fields now

/-- `POST /block/<cid>`: receive a block pushed by the uploader; `none` is the answer 400. -/
def pushReceive (s : SmokeStore) (cid : Cid) (data : Bytes) : Option SmokeStore :=
  if computeCID P data ≠ cid then none else some (s.route cid data)

end Uploads

/-! ## Deletion -/

/-- Delete the data and the markers of each CID. -/
def drop (s : SmokeStore) (cids : List Cid) : SmokeStore :=
  { s.deleteFromOPFS cids with
    blocks := s.blocks.deleteAll cids
    cached := s.cached.deleteAll cids
    cachedMeta := s.cachedMeta.deleteAll cids }

/-- Delete a block from all local storage, with what the two side indexes put under it. -/
def deleteBlock (s : SmokeStore) (cid : Cid) : SmokeStore :=
  let s := match s.chunkIndex.get? cid with
    | some chunkCids =>
      { s.deleteFromOPFS chunkCids with chunkIndex := s.chunkIndex.delete cid }
    | none => s
  let s := match s.cacheGroups.get? cid with
    | some groupCids => { s.drop groupCids with cacheGroups := s.cacheGroups.delete cid }
    | none => s
  s.drop [cid]

/-- The CIDs that a manifest names, as far as `clearCached` reads it: a chunk that is `null`
ends the loop with an exception. -/
def manifestCids [JsNumber F] (v : Json F) : List Cid :=
  (Json.asString (v.property "contentCid")).toList ++
    match v.property "streamChunks" with
    | some (.arr chunks) =>
      (chunks.takeWhile fun c => match c with
        | .null => false
        | _ => true).filterMap fun c => Json.asString (c.property "cid")
    | _ => []

/-- The sub-CIDs of a cached CID, from the most reliable source there is: the cache group,
the chunk index, and last the block itself read as a manifest. -/
def subCids [JsNumber F] (parse : Bytes → Option (Json F)) (s : SmokeStore) (cid : Cid) :
    List Cid :=
  match s.cacheGroups.get? cid with
  | some group => group
  | none =>
    match s.chunkIndex.get? cid with
    | some chunks => chunks
    | none => (((s.blocks.get? cid).bind parse).map manifestCids).getD []

/-- Delete one cached CID: a root with what hangs below it, a sub-CID alone. -/
def clearOne (knownSubCids : List Cid) (s : SmokeStore) (cid : Cid) : SmokeStore :=
  if knownSubCids.contains cid then s.drop [cid] else s.deleteBlock cid

/-- Delete all files cached for serving other nodes' content. -/
def clearCached [JsNumber F] (parse : Bytes → Option (Json F)) (s : SmokeStore) : SmokeStore :=
  s.cached.keys.foldl (clearOne (s.cached.keys.flatMap (subCids parse s))) s

/-- Wipe all stored content: own blocks and cached files. -/
def clearAllContent (s : SmokeStore) : SmokeStore :=
  { new s.opfsBlocks.isSome with peerFallbacks := s.peerFallbacks }

/-! ## Asking peers -/

/-- The peers that `retrieve` asks: known holders first, then the most recently useful
fallbacks. -/
def retrievePeers (s : SmokeStore) (priorityPeers : List String) : List String :=
  (priorityPeers.eraseDups ++ s.peerFallbacks.reverse.filter (!priorityPeers.contains ·)).take
    MAX_PARALLEL_FETCH

/-- The candidates of `cache`: the explicit uploader address, then the fallbacks. -/
def cachePeers (peerHostname : Option String) (extraFallbacks : List String) : List String :=
  let extra := extraFallbacks.filter fun p => some p ≠ peerHostname
  match peerHostname with
  | some peer => if peer = "" then extra else peer :: extra
  | none => extra

end SmokeStore

/-! ## The store in use -/

/-- What is done with the bytes of a peer. -/
inductive FetchKind where
  | retrieve
  /-- A chunk that `retrieveStream` pulls: retrieved, and then written to OPFS. -/
  | pull
  | cache (uploaderPub : Option Hex)
  deriving DecidableEq

/-- A call that waits for peers. -/
structure Fetch where
  cid : Cid
  kind : FetchKind
  /-- The peers that have not answered. -/
  waiting : List String
  /-- The call has its bytes, or has timed out. -/
  settled : Bool

/-- An upload of this node, or a file it caches for somebody else. -/
structure HeldFile extends SmokeStore.StoredFile where
  own : Bool
  deriving DecidableEq

/-- The store, the calls that wait for peers, and what has happened so far. -/
structure SmokeSession where
  store : SmokeStore
  fetches : List Fetch
  /-- What `retrieve` and `getBlock` have returned, for which CID. -/
  returned : List (Cid × Bytes)
  /-- The files that have been uploaded or cached. -/
  files : List HeldFile

inductive SmokeCall (F : Type) where
  | store (data : Bytes)
  | storeWithMeta (encrypt : Nat → Bytes → Bytes) (data : Bytes) (fields : List (String × Json F))
      (now : Int)
  | storeWithMetaPublic (data : Bytes) (fields : List (String × Json F)) (now : Int)
  /-- A peer pushes a block. -/
  | push (cid : Cid) (data : Bytes)
  | retrieve (cid : Cid) (priorityPeers : List String)
  /-- `retrieveStream` pulls its next chunk; the manifest, whoever wrote it, names the CID. -/
  | pullChunk (cid : Cid)
  | cache (cid : Cid) (peerHostname : Option String) (uploaderPub : Option Hex)
      (extraFallbacks : List String)
  /-- `peer` answers the `n`-th fetch; `none` when it fails. -/
  | answer (n : Nat) (peer : String) (response : Option Bytes)
  | timeout (n : Nat)
  | getBlock (cid : Cid)
  | markCached (cid : Cid) (uploaderPub : Option Hex)
  /-- A cache request is complete, and its sub-CIDs are recorded. -/
  | saveCacheGroup (rootCid : Cid) (subCids : List Cid)
  | uncache (cid : Cid)
  | deleteBlock (cid : Cid)
  | clearCached
  | clearAllContent
  | addPeerFallback (addr : String)

namespace SmokeSession

/-- A session that starts on an empty store. -/
def new (opfs : Bool) : SmokeSession := ⟨SmokeStore.new opfs, [], [], []⟩

/-- An upload has been stored. -/
def uploaded (s : SmokeSession) (upload : SmokeStore × SmokeStore.StoredFile) : SmokeSession :=
  { s with store := upload.1, files := s.files ++ [{ upload.2 with own := true }] }

/-- A call returns a block. -/
def give (s : SmokeSession) (cid : Cid) (data : Bytes) : SmokeSession :=
  { s with returned := s.returned ++ [(cid, data)] }

/-- A call starts to wait for `peers`; without any it throws. -/
def ask (s : SmokeSession) (cid : Cid) (kind : FetchKind) (peers : List String) : SmokeSession :=
  if peers.isEmpty then s else { s with fetches := s.fetches ++ [⟨cid, kind, peers, false⟩] }

/-- Retrieve raw bytes: from the smoke file system, from OPFS, or from a peer. -/
def retrieve (s : SmokeSession) (cid : Cid) (priorityPeers : List String) : SmokeSession :=
  match s.store.getBlock cid with
  | some data => s.give cid data
  | none => s.ask cid .retrieve (s.store.retrievePeers priorityPeers)

/-- `pull` of `retrieveStream`: OPFS first; a chunk found elsewhere is written there. -/
def pullChunk (s : SmokeSession) (cid : Cid) : SmokeSession :=
  match s.store.readFromOPFS cid, s.store.blocks.get? cid with
  | some data, _ => s.give cid data
  | none, some data => { s.give cid data with store := s.store.writeToOPFS cid data }
  | none, none => s.ask cid .pull (s.store.retrievePeers [])

def cache (s : SmokeSession) (cid : Cid) (peerHostname : Option String)
    (uploaderPub : Option Hex) (extraFallbacks : List String) : SmokeSession :=
  if (s.store.getBlock cid).isSome then
    { s with store := s.store.markCached cid uploaderPub }
  else s.ask cid (.cache uploaderPub) (SmokeStore.cachePeers peerHostname extraFallbacks)

/-- A peer has served `data` to the fetch `f`.  Every answer to a `retrieve` is written, the
first one is returned; `cache` writes the first one alone. -/
def receive (s : SmokeSession) (f : Fetch) (peer : String) (data : Bytes) : SmokeSession :=
  match f.kind with
  | .retrieve =>
    let s := { s with store := (s.store.touchPeerFallback peer).route f.cid data }
    if f.settled then s else s.give f.cid data
  | .pull =>
    let s := { s with store := (s.store.touchPeerFallback peer).route f.cid data }
    if f.settled then s
    else { s.give f.cid data with store := s.store.writeToOPFS f.cid data }
  | .cache uploaderPub =>
    if f.settled then s
    else { s with store := (s.store.route f.cid data).markCached f.cid uploaderPub }

def answer (s : SmokeSession) (n : Nat) (peer : String) (response : Option Bytes) :
    SmokeSession :=
  match s.fetches[n]? with
  | none => s
  | some f =>
    if f.waiting.contains peer then
      let f' := { f with
        waiting := f.waiting.erase peer, settled := f.settled || response.isSome }
      let s := { s with fetches := s.fetches.set n f' }
      match response with
      | none => s
      | some data => s.receive f peer data
    else s

section Step

variable [JsNumber F] (P : Primitives F) (parse : Bytes → Option (Json F))

/-- One call, or one answer of a peer. -/
def step (s : SmokeSession) : SmokeCall F → SmokeSession
  | .store data => { s with store := (s.store.store P data).1 }
  | .storeWithMeta encrypt data fields now =>
    s.uploaded (s.store.storeWithMeta P encrypt data fields now)
  | .storeWithMetaPublic data fields now =>
    s.uploaded (s.store.storeWithMetaPublic P data fields now)
  | .push cid data => { s with store := (s.store.pushReceive P cid data).getD s.store }
  | .retrieve cid priorityPeers => s.retrieve cid priorityPeers
  | .pullChunk cid => s.pullChunk cid
  | .cache cid peerHostname uploaderPub extraFallbacks =>
    s.cache cid peerHostname uploaderPub extraFallbacks
  | .answer n peer response => s.answer n peer response
  | .timeout n => { s with fetches := s.fetches.modify n fun f => { f with settled := true } }
  | .getBlock cid =>
    match s.store.getBlock cid with
    | some data => s.give cid data
    | none => s
  | .markCached cid uploaderPub => { s with store := s.store.markCached cid uploaderPub }
  | .saveCacheGroup rootCid subCids =>
    { s with
      store := s.store.saveCacheGroup rootCid subCids
      files := s.files ++ [⟨⟨rootCid, subCids⟩, false⟩] }
  | .uncache cid => { s with store := s.store.uncache cid }
  | .deleteBlock cid => { s with store := s.store.deleteBlock cid }
  | .clearCached => { s with store := s.store.clearCached parse }
  | .clearAllContent => { s with store := s.store.clearAllContent }
  | .addPeerFallback addr => { s with store := s.store.addPeerFallback addr }

end Step

end SmokeSession

end NeuronWeb
