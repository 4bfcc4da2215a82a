/-
  Storage/RangeReads: do the readers of a large file give what was stored?

  A large file is cut into chunks, which are sealed one by one and written to OPFS.

  Without OPFS the write does nothing, and the upload succeeds all the same: what was stored can
  be read back only as far as `/blocks` had it already (`reads_back_iff`).
-/
import NeuronWeb.Storage.CidText
import NeuronWeb.Storage.ContentReaders
import NeuronWeb.Transparent

set_option autoImplicit false

namespace NeuronWeb

variable {F Key α β : Type}

theorem stream_chunk_pos : 0 < STREAM_CHUNK_SIZE := by decide

/-! ## What an upload writes -/

/-- What the caller says about a file. -/
structure ContentInfo where
  mimeType : String
  name : Option String

def ContentInfo.fields (info : ContentInfo) : List (String × Json F) :=
  ("mimeType", .str info.mimeType) :: Json.field? "name" (info.name.map Json.str)

/-- The two ways to store a file: under a content key, with the IVs that are drawn, or in the
clear. -/
inductive ContentUpload (Key : Type) where
  | withMeta (key : Key) (ivs : Nat → Bytes)
  | withMetaPublic

namespace ContentUpload

variable (P : Primitives F) (A : ContentCipher Key) (u : ContentUpload Key)

/-- The `n`-th encryption of the upload. -/
def encrypt (n : Nat) (data : Bytes) : Bytes :=
  match u with
  | .withMeta key ivs => A.encrypt key (ivs n) data
  | .withMetaPublic => data

/-- What opens a chunk. -/
def opens (raw : Bytes) : Option Bytes :=
  match u with
  | .withMeta key _ => A.decrypt key raw
  | .withMetaPublic => some raw

def encrypted : Bool :=
  match u with
  | .withMeta _ _ => true
  | .withMetaPublic => false

/-- `storeWithMeta` or `storeWithMetaPublic`. -/
def store (s : SmokeStore) (data : Bytes) (info : ContentInfo) (now : Int) :
    SmokeStore × SmokeStore.StoredFile :=
  match u with
  | .withMeta key ivs =>
    s.storeWithMeta P (fun n => A.encrypt key (ivs n)) data info.fields now
  | .withMetaPublic => s.storeWithMetaPublic P data info.fields now

/-- The chunks as they are stored. -/
def sealedChunks (data : Bytes) : List Bytes :=
  ((slices STREAM_CHUNK_SIZE data).zipIdx 0).map fun e => u.encrypt A e.2 e.1

/-- The manifest of a large file. -/
def streamManifest (data : Bytes) (info : ContentInfo) (now : Int) : Json F :=
  .obj (info.fields ++
    [("size", .int data.length), ("encrypted", .bool u.encrypted), ("timestamp", .int now)] ++
    [("streamChunks", .arr ((u.sealedChunks A data).map fun stored =>
      .obj [("cid", .str (computeCID P stored)), ("size", .int stored.length)]))])

/-- The keys that a reader may give: those of the uploader, and for a public file none, or any
that do not open its manifest. -/
def Allows (manifest : Bytes) (keys : Option Key) : Prop :=
  match u with
  | .withMeta key _ => keys = some key
  | .withMetaPublic => ∀ key, keys = some key → A.decrypt key manifest = none

/-- `retrieveWithMeta` or `retrieveWithMetaPublic`. -/
def retrieve (peers : Cid → Option Bytes) (parse : Bytes → Option (Json F)) (metaCid : Cid) :
    StoreCall (Option (Bytes × StoredMeta)) :=
  match u with
  | .withMeta key _ => SmokeStore.retrieveWithMeta peers A parse metaCid key
  | .withMetaPublic => SmokeStore.retrieveWithMetaPublic peers parse metaCid

end ContentUpload

/-! ## The property -/

/-- The call returns a value of which `Q` holds. -/
def Gives (call : StoreCall α) (s : SmokeStore) (Q : α → Prop) : Prop :=
  ∃ a s', call.run s = some (a, s') ∧ Q a

/-- Every range is that of the content, and the other three readers give the content. -/
structure ReadsBack (A : ContentCipher Key) (parse : Bytes → Option (Json F))
    (peers : Cid → Option Bytes) (u : ContentUpload Key) (keys : Option Key) (s : SmokeStore)
    (metaCid : Cid) (data : Bytes) : Prop where
  range : ∀ start stop : Nat, start ≤ stop →
    Gives (SmokeStore.getChunkBytes peers A parse metaCid start stop keys) s fun r =>
      r = some (between start (min stop (data.length - 1)) data)
  stream : Gives (SmokeStore.retrieveStream peers A parse metaCid keys) s fun r =>
    ∃ chunks found, r = some (chunks, found) ∧ chunks.flatten = data
  whole : Gives (u.retrieve A peers parse metaCid) s fun r => ∃ found, r = some (data, found)
  auto : Gives (SmokeStore.retrieveAuto peers A parse metaCid keys) s fun r =>
    ∃ found wasEncrypted, r = some (data, found, wasEncrypted)

/-- There is an OPFS directory, or `/blocks` has for each chunk something that opens to it. -/
def ContentUpload.Holds (P : Primitives F) (A : ContentCipher Key) (u : ContentUpload Key)
    (s : SmokeStore) (data : Bytes) : Prop :=
  s.opfsBlocks.isSome = true ∨
    List.Forall₂ (fun stored chunk =>
        (s.blocks.get? (computeCID P stored)).bind (u.opens A) = some chunk)
      (u.sealedChunks A data) (slices STREAM_CHUNK_SIZE data)

/-! ## The chunks are written -/

section Written

variable {P : Primitives F}

/-- The sealed chunks, written one after the other. -/
def writeChunks (P : Primitives F) (s : SmokeStore) (chunks : List Bytes) : SmokeStore :=
  chunks.foldl (fun s stored => s.writeToOPFS (computeCID P stored) stored) s

theorem storeChunks_eq (encrypt : Nat → Bytes → Bytes) (data : Bytes) : ∀ s idx,
    SmokeStore.storeChunks P encrypt s idx data =
      let stored := ((slices STREAM_CHUNK_SIZE data).zipIdx idx).map fun e => encrypt e.2 e.1
      (writeChunks P s stored, stored.map fun b => (computeCID P b, b.length)) := by
  induction data using slices_induction stream_chunk_pos with
  | nil =>
    intro s idx
    rw [SmokeStore.storeChunks, if_pos rfl, slices_nil]
    rfl
  | step data hdata ih =>
    intro s idx
    rw [SmokeStore.storeChunks, if_neg hdata, slices_of_ne_nil stream_chunk_pos hdata]
    simp only [ih, List.zipIdx_cons, List.map_cons]
    rfl

@[simp] theorem writeChunks_blocks (s : SmokeStore) (chunks : List Bytes) :
    (writeChunks P s chunks).blocks = s.blocks := by
  induction chunks generalizing s with
  | nil => rfl
  | cons stored rest ih => exact ih _

@[simp] theorem writeChunks_opfs (s : SmokeStore) (chunks : List Bytes) :
    (writeChunks P s chunks).opfsBlocks.isSome = s.opfsBlocks.isSome := by
  induction chunks generalizing s with
  | nil => rfl
  | cons stored rest ih =>
    refine (ih _).trans ?_
    simp [SmokeStore.writeToOPFS]

theorem readFromOPFS_writeChunks (hP : Function.Injective P.sha256) {s : SmokeStore}
    (hopfs : s.opfsBlocks.isSome = true) {stored : Bytes} (chunks : List Bytes)
    (h : stored ∈ chunks ∨ s.readFromOPFS (computeCID P stored) = some stored) :
    (writeChunks P s chunks).readFromOPFS (computeCID P stored) = some stored := by
  induction chunks generalizing s with
  | nil => exact h.resolve_left (List.not_mem_nil)
  | cons next rest ih =>
    have hopfs' : (s.writeToOPFS (computeCID P next) next).opfsBlocks.isSome = true := by
      simpa [SmokeStore.writeToOPFS] using hopfs
    refine ih hopfs' ?_
    rw [SmokeStore.readFromOPFS_writeToOPFS]
    by_cases hnext : next = stored
    · exact .inr (by rw [if_pos ⟨congrArg _ hnext, hopfs⟩, hnext])
    · have hcid : ¬ (computeCID P next = computeCID P stored ∧ s.opfsBlocks.isSome = true) :=
        fun hboth => hnext (computeCID_injective hP hboth.1)
      rw [if_neg hcid]
      refine h.imp_left fun hmem => ?_
      exact (List.mem_cons.mp hmem).resolve_left fun heq => hnext heq.symm

/-! ## The upload as a whole -/

variable {A : ContentCipher Key} {u : ContentUpload Key} {s : SmokeStore} {data : Bytes}
  {info : ContentInfo} {now : Int}

namespace ContentUpload

variable (P A u data info now)

/-- The manifest as it is stored. -/
def storedManifest : Bytes :=
  u.encrypt A (u.sealedChunks A data).length (P.encodeJson (u.streamManifest P A data info now))

variable {P A u data info now}

theorem store_eq : u.store P A s data info now =
    SmokeStore.storeSealed P (u.encrypt A) u.encrypted s data info.fields now := by
  cases u with
  | withMeta key ivs => rfl
  | withMetaPublic => rfl

section

variable (hlarge : STREAM_CHUNK_SIZE < data.length)
include hlarge

theorem store_large : let manifest := u.storedManifest P A data info now
    let cids := (u.sealedChunks A data).map (computeCID P)
    let s' := writeChunks P s (u.sealedChunks A data)
    u.store P A s data info now =
      (({ s' with blocks := s'.blocks.set (computeCID P manifest) manifest }).saveChunkIndex
          (computeCID P manifest) cids,
        ⟨computeCID P manifest, cids⟩) := by
  rw [store_eq, SmokeStore.storeSealed]
  simp only [if_pos hlarge, storeChunks_eq]
  simp only [SmokeStore.store, storedManifest, streamManifest, sealedChunks, List.map_map,
    List.length_map]
  rfl

theorem manifest_stored :
    (u.store P A s data info now).1.getBlock (u.store P A s data info now).2.root =
      some (u.storedManifest P A data info now) := by
  rw [store_large hlarge]
  simp [SmokeStore.getBlock, SmokeStore.saveChunkIndex]

theorem opfs_store_large :
    (u.store P A s data info now).1.opfsBlocks.isSome = s.opfsBlocks.isSome := by
  rw [store_large hlarge]
  exact writeChunks_opfs s _

end

theorem chunk_stored (hP : Function.Injective P.sha256)
    (hlarge : STREAM_CHUNK_SIZE < data.length) (hopfs : s.opfsBlocks.isSome = true)
    {stored : Bytes} (h : stored ∈ u.sealedChunks A data) :
    (u.store P A s data info now).1.readFromOPFS (computeCID P stored) = some stored := by
  rw [store_large hlarge]
  exact readFromOPFS_writeChunks hP hopfs _ (.inl h)

theorem opens_sealedChunks (hA : A.Lawful) :
    List.Forall₂ (fun stored chunk => u.opens A stored = some chunk) (u.sealedChunks A data)
      (slices STREAM_CHUNK_SIZE data) := by
  rw [sealedChunks, List.forall₂_map_left_iff]
  have hzip : ∀ (l : List Bytes) (k : Nat),
      List.Forall₂ (fun (e : Bytes × Nat) chunk => u.opens A (u.encrypt A e.2 e.1) = some chunk)
        (l.zipIdx k) l := by
    intro l
    induction l with
    | nil => intro k; exact .nil
    | cons chunk rest ih =>
      intro k
      refine .cons ?_ (ih (k + 1))
      cases u with
      | withMeta key ivs => exact hA.decrypt_encrypt key (ivs k) chunk
      | withMetaPublic => rfl
  exact hzip _ 0

theorem length_sealedChunks :
    (u.sealedChunks A data).length = (slices STREAM_CHUNK_SIZE data).length := by
  rw [sealedChunks, List.length_map, List.length_zipIdx]

theorem readMeta_streamManifest :
    readMeta (u.streamManifest P A data info now) =
      some ⟨data.length, u.encrypted, none, (u.sealedChunks A data).map (computeCID P)⟩ := by
  obtain ⟨mimeType, name⟩ := info
  have hfields : ∀ key v, key ≠ "mimeType" → key ≠ "name" →
      JsMap.find key (ContentInfo.fields ⟨mimeType, name⟩ ++ v : List (String × Json F)) =
        JsMap.find key v := by
    intro key v hmime hname
    cases name with
    | none => simp [ContentInfo.fields, Json.field?, JsMap.find, hmime.symm]
    | some name => simp [ContentInfo.fields, Json.field?, JsMap.find, hmime.symm, hname.symm]
  have hcids : streamChunkCids (some (Json.arr ((u.sealedChunks A data).map fun stored =>
      (Json.obj [("cid", .str (computeCID P stored)), ("size", .int stored.length)] : Json F)))) =
        some ((u.sealedChunks A data).map (computeCID P)) := by
    simp only [streamChunkCids]
    induction u.sealedChunks A data with
    | nil => rfl
    | cons stored rest ih => rw [List.map_cons, List.mapM_cons, ih]; rfl
  unfold readMeta streamManifest Json.property
  simp only [List.append_assoc, List.cons_append, List.nil_append]
  rw [hfields "size" _ (by decide) (by decide), hfields "encrypted" _ (by decide) (by decide),
    hfields "streamChunks" _ (by decide) (by decide),
    hfields "contentCid" _ (by decide) (by decide)]
  simp only [JsMap.find, String.reduceEq, if_false, if_true]
  rw [hcids]
  rfl

end ContentUpload

end Written

/-! ## Calls that leave the store as it is -/

section Calls

variable {s : SmokeStore} {a : α} {b : β} {cid : Cid} {raw : Bytes}
  {peers : Cid → Option Bytes} {A : ContentCipher Key} {parse : Bytes → Option (Json F)}
  {key : Key}

/-- The call returns `a`, and the store is what it was. -/
def Yields (call : StoreCall α) (s : SmokeStore) (a : α) : Prop := call.run s = some (a, s)

theorem yields_pure (a : α) : Yields (pure a) s a := rfl

theorem Yields.bind {call : StoreCall α} {next : α → StoreCall β} (h : Yields call s a)
    (h' : Yields (next a) s b) : Yields (call >>= next) s b := by
  unfold Yields at h ⊢
  rw [StateT.run_bind, h]
  exact h'

theorem Yields.tried {call : StoreCall α} (h : Yields call s a) :
    Yields (SmokeStore.tried call) s (some a) := by
  simp only [Yields, SmokeStore.tried, StateT.run] at h ⊢
  rw [h]

theorem Yields.gives {call : StoreCall α} (h : Yields call s a) {Q : α → Prop} (hQ : Q a) :
    Gives call s Q :=
  ⟨a, s, h, hQ⟩

theorem yields_retrieve (h : s.getBlock cid = some raw) :
    Yields (SmokeStore.retrieve peers cid) s raw := by
  simp only [Yields, SmokeStore.retrieve, StateT.run]
  rw [h]

theorem yields_retrieveJSON (h : s.getBlock cid = some raw) :
    Yields (SmokeStore.retrieveJSON peers A parse cid key) s
      (((A.decrypt key raw).bind parse).bind readMeta) :=
  Yields.bind (Yields.bind (yields_retrieve h).tried (yields_pure _)) (yields_pure _)

theorem yields_retrievePlainMeta (h : s.getBlock cid = some raw) :
    Yields (SmokeStore.retrievePlainMeta peers parse cid) s ((parse raw).bind readMeta) :=
  Yields.bind (yields_retrieve h).tried (yields_pure _)

/-- The chunk can be read, and pulled, and opens to `plain`. -/
def ChunkRead (peers : Cid → Option Bytes) (opens : Bytes → Option Bytes) (s : SmokeStore)
    (cid : Cid) (plain : Bytes) : Prop :=
  ∃ raw, Yields (SmokeStore.readChunk peers cid) s raw ∧
    Yields (SmokeStore.pullChunk peers cid) s raw ∧ opens raw = some plain

variable {opens : Bytes → Option Bytes} {cids : List Cid} {plains : List Bytes}

theorem yields_assemble (h : List.Forall₂ (ChunkRead peers opens s) cids plains) :
    Yields (SmokeStore.assemble peers opens cids) s (some plains) := by
  induction h with
  | nil => exact yields_pure _
  | cons hchunk _ ih =>
    obtain ⟨raw, hread, -, hopens⟩ := hchunk
    refine Yields.bind hread ?_
    rw [hopens]
    exact Yields.bind ih (yields_pure _)

theorem yields_pullAll (h : List.Forall₂ (ChunkRead peers opens s) cids plains) :
    Yields (SmokeStore.pullAll peers opens cids) s plains := by
  induction h with
  | nil => exact yields_pure _
  | cons hchunk _ ih =>
    obtain ⟨raw, -, hpull, hopens⟩ := hchunk
    refine Yields.bind hpull ?_
    rw [hopens]
    exact Yields.bind ih (yields_pure _)

theorem subarray_eq_between {start stop offset : Nat} (h : offset ≤ stop) (plain : Bytes) :
    subarray plain (max 0 (start - offset : Int)) (min (plain.length : Int) (stop - offset + 1)) =
      between (start - offset) (stop - offset) plain := by
  have hstart : (max 0 (start - offset : Int)).toNat = start - offset := by omega
  have hstop : (min (plain.length : Int) (stop - offset + 1)).toNat =
      min (stop - offset + 1) plain.length := by omega
  rw [subarray, between, hstart, hstop, ← List.take_take, List.take_length]

theorem yields_overlap {start stop offset len : Nat} {plain : Bytes}
    (h : ChunkRead peers opens s cid plain) :
    Yields (SmokeStore.overlap peers opens start stop offset (offset + len - 1) cid) s
      (if start < offset + len ∧ offset ≤ stop then
        [between (start - offset) (stop - offset) plain] else []) := by
  unfold SmokeStore.overlap
  by_cases hin : start < offset + len ∧ offset ≤ stop
  · obtain ⟨raw, hread, -, hopens⟩ := h
    rw [if_pos hin, if_pos (by omega), ← subarray_eq_between hin.2]
    refine Yields.bind hread ?_
    rw [hopens]
    exact yields_pure _
  · rw [if_neg hin, if_neg (by omega)]
    exact yields_pure _

/-- The loop of `getChunkBytes` on chunks of the declared lengths, whatever they open to. -/
theorem yields_overlapping {start stop : Nat} (size : Nat) (content : Bytes) :
    ∀ (offset : Nat) (cids : List Cid) (parts : List (Nat × Bytes)),
      size = offset + content.length →
      parts.map Prod.fst = (slices STREAM_CHUNK_SIZE content).map List.length →
      List.Forall₂ (ChunkRead peers opens s) cids (parts.map Prod.snd) →
      Yields (SmokeStore.overlapping peers opens size start stop offset cids) s
        (rangeParts start stop offset parts) := by
  induction content using slices_induction stream_chunk_pos with
  | nil =>
    intro offset cids parts _ hlengths hchunks
    rw [slices_nil, List.map_nil, List.map_eq_nil_iff] at hlengths
    subst hlengths
    cases hchunks
    exact yields_pure _
  | step content hcontent ih =>
    intro offset cids parts hsize hlengths hchunks
    rw [slices_of_ne_nil stream_chunk_pos hcontent] at hlengths
    cases parts with
    | nil => simp at hlengths
    | cons part parts =>
      obtain ⟨len, plain⟩ := part
      obtain ⟨hlen, hlengths⟩ := List.cons.inj hlengths
      cases hchunks with
      | cons hchunk hchunks =>
        have hpos := List.length_pos_of_ne_nil hcontent
        have hlen' : len = min STREAM_CHUNK_SIZE content.length := by
          rw [← List.length_take]
          exact hlen
        have hsize' : min (STREAM_CHUNK_SIZE : Int) (size - offset) = (len : Int) := by
          omega
        have hnext : size = offset + len + (content.drop STREAM_CHUNK_SIZE).length := by
          rw [List.length_drop]
          omega
        rw [rangeParts_cons, SmokeStore.overlapping]
        simp only [hsize']
        refine Yields.bind (yields_overlap hchunk) ?_
        by_cases hlast : stop < offset + len
        · rw [if_pos hlast, if_pos (by omega), List.append_nil]
          exact yields_pure _
        · rw [if_neg hlast, if_neg (by omega)]
          exact Yields.bind (ih (offset + len) _ _ hnext hlengths hchunks) (yields_pure _)

end Calls

/-! ## The readers of an upload -/

section Readers

variable {P : Primitives F} {A : ContentCipher Key} {parse : Bytes → Option (Json F)}
  {peers : Cid → Option Bytes} {u : ContentUpload Key} {keys : Option Key} {s : SmokeStore}
  {root : Cid} {data : Bytes} {info : ContentInfo} {now : Int}

/-- What the readers find in the manifest. -/
def ContentUpload.streamMeta (P : Primitives F) (A : ContentCipher Key) (u : ContentUpload Key)
    (data : Bytes) : StoredMeta :=
  ⟨data.length, u.encrypted, none, (u.sealedChunks A data).map (computeCID P)⟩

/-- The manifest is held and parsed as it was written, and the keys are allowed. -/
structure ManifestHeld (P : Primitives F) (A : ContentCipher Key)
    (parse : Bytes → Option (Json F)) (u : ContentUpload Key) (data : Bytes)
    (info : ContentInfo) (now : Int) (keys : Option Key) (s : SmokeStore) (root : Cid) : Prop where
  held : s.getBlock root = some (u.storedManifest P A data info now)
  parsed : parse (P.encodeJson (u.streamManifest P A data info now)) =
    some (u.streamManifest P A data info now)
  allowed : u.Allows A (P.encodeJson (u.streamManifest P A data info now)) keys

theorem ManifestHeld.decrypted {key : Key} {ivs : Nat → Bytes} (hA : A.Lawful)
    (h : ManifestHeld P A parse (.withMeta key ivs) data info now keys s root) :
    Yields (SmokeStore.retrieveJSON peers A parse root key) s
      (some (ContentUpload.streamMeta P A (.withMeta key ivs) data)) := by
  have hread : Yields (SmokeStore.retrieveJSON peers A parse root key) s _ :=
    yields_retrieveJSON h.held
  have hdecrypted : A.decrypt key (ContentUpload.storedManifest P A (.withMeta key ivs) data
      info now) = some (P.encodeJson (ContentUpload.streamManifest P A (.withMeta key ivs) data
        info now)) :=
    hA.decrypt_encrypt key _ _
  rw [hdecrypted, Option.bind_some, h.parsed, Option.bind_some,
    ContentUpload.readMeta_streamManifest] at hread
  exact hread

theorem ManifestHeld.plain
    (h : ManifestHeld P A parse (.withMetaPublic : ContentUpload Key) data info now keys s root) :
    Yields (SmokeStore.retrievePlainMeta peers parse root) s
      (some (ContentUpload.streamMeta P A (.withMetaPublic : ContentUpload Key) data)) := by
  have hread : Yields (SmokeStore.retrievePlainMeta peers parse root) s _ :=
    yields_retrievePlainMeta h.held
  rw [show ContentUpload.storedManifest P A (.withMetaPublic : ContentUpload Key) data info now =
    P.encodeJson (ContentUpload.streamManifest P A .withMetaPublic data info now) from rfl,
    h.parsed, Option.bind_some, ContentUpload.readMeta_streamManifest] at hread
  exact hread

theorem ManifestHeld.refused {key : Key}
    (h : ManifestHeld P A parse (.withMetaPublic : ContentUpload Key) data info now (some key)
      s root) :
    Yields (SmokeStore.retrieveJSON peers A parse root key) s none := by
  have hread : Yields (SmokeStore.retrieveJSON peers A parse root key) s _ :=
    yields_retrieveJSON h.held
  rw [show A.decrypt key (ContentUpload.storedManifest P A (.withMetaPublic : ContentUpload Key)
    data info now) = none from h.allowed key rfl, Option.bind_none, Option.bind_none] at hread
  exact hread

theorem ManifestHeld.opened (hA : A.Lawful)
    (h : ManifestHeld P A parse u data info now keys s root) :
    Yields (SmokeStore.openManifest peers A parse root keys) s
      (some (u.streamMeta P A data)) := by
  unfold SmokeStore.openManifest
  cases u with
  | withMeta key ivs =>
    have hkeys : keys = some key := h.allowed
    subst hkeys
    exact Yields.bind (h.decrypted hA) (yields_pure _)
  | withMetaPublic =>
    cases keys with
    | none => exact Yields.bind (yields_pure none) h.plain
    | some key => exact Yields.bind h.refused h.plain

theorem decode_eq_opens {manifest : Bytes} (h : u.Allows A manifest keys) :
    SmokeStore.decode A keys u.encrypted = u.opens A := by
  funext raw
  cases u with
  | withMeta key ivs =>
    have hkeys : keys = some key := h
    subst hkeys
    rfl
  | withMetaPublic => cases keys <;> rfl

theorem streamChunks_ne_nil (hdata : data ≠ []) :
    (u.streamMeta P A data).streamChunks.isEmpty = false := by
  have hlength : (u.sealedChunks A data).length = (slices STREAM_CHUNK_SIZE data).length :=
    ContentUpload.length_sealedChunks
  rw [slices_of_ne_nil stream_chunk_pos hdata, List.length_cons] at hlength
  cases hchunks : u.sealedChunks A data with
  | nil => simp [hchunks] at hlength
  | cons stored rest => simp [ContentUpload.streamMeta, hchunks]

variable {plains : List Bytes}

theorem ManifestHeld.yields_range (hA : A.Lawful) (hdata : data ≠ [])
    (h : ManifestHeld P A parse u data info now keys s root) {start stop : Nat}
    (hcount : plains.length = (slices STREAM_CHUNK_SIZE data).length)
    (hchunks : List.Forall₂ (ChunkRead peers (u.opens A) s)
      ((u.sealedChunks A data).map (computeCID P)) plains) :
    Yields (SmokeStore.getChunkBytes peers A parse root start stop keys) s
      (some (rangeParts start stop 0
        (((slices STREAM_CHUNK_SIZE data).map List.length).zip plains)).flatten) := by
  have hlengths : (((slices STREAM_CHUNK_SIZE data).map List.length).zip plains).map Prod.fst =
      (slices STREAM_CHUNK_SIZE data).map List.length :=
    List.map_fst_zip (by rw [List.length_map, hcount])
  have hplains : (((slices STREAM_CHUNK_SIZE data).map List.length).zip plains).map Prod.snd =
      plains :=
    List.map_snd_zip (by rw [List.length_map, hcount])
  refine Yields.bind (h.opened hA) ?_
  simp only [streamChunks_ne_nil hdata, Bool.false_eq_true, if_false]
  rw [show (u.streamMeta P A data).encrypted = u.encrypted from rfl, decode_eq_opens h.allowed]
  refine Yields.bind (yields_overlapping data.length data 0 _ _ (Nat.zero_add _).symm
    hlengths (hplains.symm ▸ hchunks)) (yields_pure _)

theorem ManifestHeld.yields_stream (hA : A.Lawful) (hdata : data ≠ [])
    (h : ManifestHeld P A parse u data info now keys s root)
    (hchunks : List.Forall₂ (ChunkRead peers (u.opens A) s)
      ((u.sealedChunks A data).map (computeCID P)) plains) :
    Yields (SmokeStore.retrieveStream peers A parse root keys) s
      (some (plains, u.streamMeta P A data)) := by
  refine Yields.bind (h.opened hA) ?_
  simp only [streamChunks_ne_nil hdata, Bool.false_eq_true, if_false]
  rw [show (u.streamMeta P A data).encrypted = u.encrypted from rfl, decode_eq_opens h.allowed]
  exact Yields.bind (yields_pullAll hchunks) (yields_pure _)

theorem ManifestHeld.yields_whole (hA : A.Lawful) (hdata : data ≠ [])
    (h : ManifestHeld P A parse u data info now keys s root)
    (hchunks : List.Forall₂ (ChunkRead peers (u.opens A) s)
      ((u.sealedChunks A data).map (computeCID P)) plains) :
    Yields (u.retrieve A peers parse root) s
      (some (plains.flatten, u.streamMeta P A data)) := by
  cases u with
  | withMeta key ivs =>
    refine Yields.bind (h.decrypted hA) ?_
    simp only [streamChunks_ne_nil hdata, Bool.false_eq_true, if_false]
    exact Yields.bind (yields_assemble hchunks) (yields_pure _)
  | withMetaPublic =>
    refine Yields.bind h.plain ?_
    simp only [streamChunks_ne_nil hdata, Bool.false_eq_true, if_false]
    exact Yields.bind (yields_assemble hchunks).tried (yields_pure _)

theorem ManifestHeld.yields_auto (hA : A.Lawful) (hdata : data ≠ [])
    (h : ManifestHeld P A parse u data info now keys s root)
    (hchunks : List.Forall₂ (ChunkRead peers (u.opens A) s)
      ((u.sealedChunks A data).map (computeCID P)) plains) :
    Yields (SmokeStore.retrieveAuto peers A parse root keys) s
      (some (plains.flatten, u.streamMeta P A data, u.encrypted)) := by
  have hwhole := h.yields_whole hA hdata hchunks
  unfold SmokeStore.retrieveAuto
  cases u with
  | withMeta key ivs =>
    have hkeys : keys = some key := h.allowed
    subst hkeys
    exact Yields.bind hwhole (yields_pure _)
  | withMetaPublic =>
    cases keys with
    | none => exact Yields.bind (yields_pure none) (Yields.bind hwhole (yields_pure _))
    | some key =>
      have hnone : Yields (SmokeStore.retrieveWithMeta peers A parse root key) s none :=
        Yields.bind h.refused (yields_pure _)
      exact Yields.bind hnone (Yields.bind hwhole (yields_pure _))

theorem ManifestHeld.readsBack (hA : A.Lawful) (hdata : data ≠ [])
    (h : ManifestHeld P A parse u data info now keys s root)
    (hchunks : List.Forall₂ (ChunkRead peers (u.opens A) s)
      ((u.sealedChunks A data).map (computeCID P)) (slices STREAM_CHUNK_SIZE data)) :
    ReadsBack A parse peers u keys s root data where
  range start stop _ := by
    refine (h.yields_range hA hdata rfl hchunks).gives ?_
    rw [flatten_rangeParts_slices stream_chunk_pos start stop data 0 (Nat.zero_le _), between_min]
    rfl
  stream := (h.yields_stream hA hdata hchunks).gives
    ⟨_, _, rfl, flatten_slices stream_chunk_pos data⟩
  whole := (h.yields_whole hA hdata hchunks).gives
    ⟨_, by rw [flatten_slices stream_chunk_pos]⟩
  auto := (h.yields_auto hA hdata hchunks).gives
    ⟨_, _, by rw [flatten_slices stream_chunk_pos]⟩

/-! ## Chunks that are there, and chunks that are not -/

variable {cid : Cid} {raw plain : Bytes} {opens : Bytes → Option Bytes}

theorem chunkRead_of_opfs (hread : s.readFromOPFS cid = some raw)
    (hopens : opens raw = some plain) : ChunkRead peers opens s cid plain := by
  refine ⟨raw, ?_, ?_, hopens⟩
  · simp only [Yields, SmokeStore.readChunk, StateT.run, hread]
  · simp only [Yields, SmokeStore.pullChunk, StateT.run, hread]

section

variable (hnone : s.opfsBlocks = none)
include hnone

theorem readFromOPFS_of_none : s.readFromOPFS cid = none := by
  rw [SmokeStore.readFromOPFS, hnone, Option.bind_none]

theorem getBlock_of_none : s.getBlock cid = s.blocks.get? cid := by
  rw [SmokeStore.getBlock, readFromOPFS_of_none hnone, Option.or_none]

theorem writeToOPFS_of_none : s.writeToOPFS cid raw = s := by
  rw [SmokeStore.writeToOPFS, hnone, Option.map_none, ← hnone]

theorem chunkRead_of_block
    (hblock : (s.blocks.get? cid).bind opens = some plain) : ChunkRead peers opens s cid plain := by
  obtain ⟨raw, hget, hopens⟩ := Option.bind_eq_some_iff.mp hblock
  rw [← getBlock_of_none hnone] at hget
  refine ⟨raw, ?_, ?_, hopens⟩
  · simp only [Yields, SmokeStore.readChunk, SmokeStore.retrieve, StateT.run,
      readFromOPFS_of_none hnone, hget]
  · simp only [Yields, SmokeStore.pullChunk, SmokeStore.retrieve, StateT.run,
      readFromOPFS_of_none hnone, hget, Option.map_some, writeToOPFS_of_none hnone]

/-- Without OPFS and without peers, a stream that ends has found its chunks in `/blocks`. -/
theorem blocks_of_pullAll (cids : List Cid) {s' : SmokeStore} :
    ∀ {plains : List Bytes},
      (SmokeStore.pullAll (fun _ => none) opens cids).run s = some (plains, s') →
      s' = s ∧
        List.Forall₂ (fun cid plain => (s.blocks.get? cid).bind opens = some plain)
          cids plains := by
  induction cids with
  | nil =>
    intro plains hrun
    cases hrun
    exact ⟨rfl, .nil⟩
  | cons cid rest ih =>
    intro plains hrun
    rw [SmokeStore.pullAll, StateT.run_bind] at hrun
    have hpull : (SmokeStore.pullChunk (fun _ => none) cid).run s =
        (s.blocks.get? cid).map fun raw => (raw, s) := by
      simp only [SmokeStore.pullChunk, SmokeStore.retrieve, StateT.run,
        readFromOPFS_of_none hnone, getBlock_of_none hnone]
      cases s.blocks.get? cid with
      | none => rfl
      | some raw => simp [writeToOPFS_of_none hnone]
    rw [hpull] at hrun
    cases hget : s.blocks.get? cid with
    | none => simp [hget] at hrun
    | some raw =>
      cases hopens : opens raw with
      | none => simp [hget, hopens, failure, StateT.failure, StateT.run] at hrun
      | some plain =>
        simp only [hget, Option.map_some, Option.bind_eq_bind, Option.bind_some, hopens,
          StateT.run_bind, StateT.run_pure, Option.pure_def,
          Option.bind_eq_some_iff] at hrun
        obtain ⟨⟨later, after⟩, hlater, heq⟩ := hrun
        cases heq
        obtain ⟨hsame, hchunks⟩ := ih hlater
        exact ⟨hsame, .cons (by rw [hget, Option.bind_some, hopens]) hchunks⟩

end

/-- Without OPFS and without peers, the readers agree with what was stored only when `/blocks`
has the chunks. -/
theorem ManifestHeld.chunks_of_readsBack (hA : A.Lawful) (hdata : data ≠ [])
    (h : ManifestHeld P A parse u data info now keys s root) (hnone : s.opfsBlocks = none)
    (hback : ReadsBack A parse (fun _ => none) u keys s root data) :
    List.Forall₂ (fun cid chunk => (s.blocks.get? cid).bind (u.opens A) = some chunk)
      ((u.sealedChunks A data).map (computeCID P)) (slices STREAM_CHUNK_SIZE data) := by
  obtain ⟨_, s', hrun, plains, found, rfl, hflatten⟩ := hback.stream
  have hpull : (SmokeStore.pullAll (fun _ => none) (u.opens A)
      (u.streamMeta P A data).streamChunks).run s = some (plains, s') := by
    rw [SmokeStore.retrieveStream, StateT.run_bind, (h.opened hA)] at hrun
    simp only [Option.bind_eq_bind, Option.bind_some, streamChunks_ne_nil hdata,
      Bool.false_eq_true, if_false, StateT.run_bind, StateT.run_pure, Option.pure_def,
      Option.bind_eq_some_iff] at hrun
    obtain ⟨⟨parts, after⟩, hparts, heq⟩ := hrun
    cases heq
    rwa [show (u.streamMeta P A data).encrypted = u.encrypted from rfl,
      decode_eq_opens h.allowed] at hparts
  obtain ⟨-, hblocks⟩ := blocks_of_pullAll hnone _ hpull
  have hcount : plains.length = (slices STREAM_CHUNK_SIZE data).length := by
    rw [← hblocks.length_eq, ← ContentUpload.length_sealedChunks (A := A) (u := u)]
    exact List.length_map _
  have hread : List.Forall₂ (ChunkRead (fun _ => none) (u.opens A) s)
      ((u.sealedChunks A data).map (computeCID P)) plains :=
    hblocks.imp fun _ _ => chunkRead_of_block hnone
  have hslices : plains = slices STREAM_CHUNK_SIZE data := by
    refine eq_slices_of_ranges stream_chunk_pos hcount hflatten fun start stop hle => ?_
    obtain ⟨_, _, hrange, rfl⟩ := hback.range start stop hle
    have hyields : Yields (SmokeStore.getChunkBytes _ A parse root start stop keys) s _ :=
      h.yields_range hA hdata hcount hread
    rw [Yields, hrange] at hyields
    rw [← between_min start stop data]
    simp only [Option.some.injEq, Prod.mk.injEq] at hyields
    exact hyields.1.symm
  exact hslices ▸ hblocks

end Readers

/-! ## The readers and the store -/

section

variable {P : Primitives F} {A : ContentCipher Key} {u : ContentUpload Key} {s : SmokeStore}
  {data : Bytes} {info : ContentInfo} {now : Int}

theorem ContentUpload.Holds.chunksRead (hP : Function.Injective P.sha256) (hA : A.Lawful)
    (hlarge : STREAM_CHUNK_SIZE < data.length)
    (h : u.Holds P A (u.store P A s data info now).1 data) (peers : Cid → Option Bytes) :
    List.Forall₂ (ChunkRead peers (u.opens A) (u.store P A s data info now).1)
      ((u.sealedChunks A data).map (computeCID P)) (slices STREAM_CHUNK_SIZE data) := by
  rw [List.forall₂_map_left_iff]
  cases hopfs : s.opfsBlocks.isSome with
  | true =>
    have hopens : List.Forall₂ (fun stored chunk => u.opens A stored = some chunk)
        (u.sealedChunks A data) (slices STREAM_CHUNK_SIZE data) :=
      ContentUpload.opens_sealedChunks hA
    have hboth := (List.forall₂_and_left _ _).mpr ⟨fun _ hmem => hmem, hopens⟩
    exact hboth.imp fun stored chunk hchunk =>
      chunkRead_of_opfs (ContentUpload.chunk_stored hP hlarge hopfs hchunk.1) hchunk.2
  | false =>
    have hsome : (u.store P A s data info now).1.opfsBlocks.isSome = s.opfsBlocks.isSome :=
      ContentUpload.opfs_store_large hlarge
    rw [hopfs] at hsome
    have hnone := Option.isSome_eq_false_iff.mp hsome
    refine (h.resolve_left (by rw [hsome]; exact Bool.false_ne_true)).imp fun stored chunk => ?_
    exact chunkRead_of_block (Option.isNone_iff_eq_none.mp hnone)

/-- The file can be read back whatever peers answer, with every keys argument that is allowed,
exactly when there is an OPFS directory for its chunks, or `/blocks` has them all. -/
theorem reads_back_iff (hP : Function.Injective P.sha256) (hA : A.Lawful)
    (parse : Bytes → Option (Json F)) (u : ContentUpload Key) (s : SmokeStore) (data : Bytes)
    (info : ContentInfo) (now : Int)
    (hparse : parse (P.encodeJson (u.streamManifest P A data info now)) =
      some (u.streamManifest P A data info now))
    (hlarge : STREAM_CHUNK_SIZE < data.length) :
    (∀ peers keys, u.Allows A (P.encodeJson (u.streamManifest P A data info now)) keys →
        ReadsBack A parse peers u keys (u.store P A s data info now).1
          (u.store P A s data info now).2.root data) ↔
      u.Holds P A (u.store P A s data info now).1 data := by
  have hdata : data ≠ [] := List.ne_nil_of_length_pos (by omega)
  have hheld : ∀ keys, u.Allows A (P.encodeJson (u.streamManifest P A data info now)) keys →
      ManifestHeld P A parse u data info now keys (u.store P A s data info now).1
        (u.store P A s data info now).2.root :=
    fun keys hkeys => ⟨ContentUpload.manifest_stored hlarge, hparse, hkeys⟩
  constructor
  · intro hback
    cases hopfs : (u.store P A s data info now).1.opfsBlocks with
    | some files => exact .inl (by rw [hopfs]; rfl)
    | none =>
      obtain ⟨keys, hkeys⟩ : ∃ keys, u.Allows A
          (P.encodeJson (u.streamManifest P A data info now)) keys := by
        cases u with
        | withMeta key ivs => exact ⟨some key, rfl⟩
        | withMetaPublic => exact ⟨none, fun key hkey => absurd hkey.symm (Option.some_ne_none _)⟩
      have hchunks := (hheld keys hkeys).chunks_of_readsBack hA hdata hopfs
        (hback (fun _ => none) keys hkeys)
      rw [List.forall₂_map_left_iff] at hchunks
      exact .inr hchunks
  · intro hholds peers keys hkeys
    exact (hheld keys hkeys).readsBack hA hdata (hholds.chunksRead hP hA hlarge peers)

end

/-! ## A file of one chunk and one byte -/

namespace Sample

/-- A cipher that puts the key before the data. -/
def keyFirst : ContentCipher UInt8 where
  encrypt key _ data := key :: data
  decrypt key data := if data.head? = some key then some data.tail else none

theorem keyFirst_lawful : keyFirst.Lawful where
  decrypt_encrypt _ _ _ := if_pos rfl

/-- A parser of one text. -/
def parseOnly (v : Json Rat) (bytes : Bytes) : Option (Json Rat) :=
  if bytes = serial.encodeJson v then some v else none

theorem parseOnly_self (v : Json Rat) : parseOnly v (serial.encodeJson v) = some v := if_pos rfl

def clipInfo : ContentInfo := ⟨"video/mp4", some "clip"⟩

/-- An upload under the key 1. -/
def privateUpload : ContentUpload UInt8 := .withMeta 1 fun _ => []

def publicUpload : ContentUpload UInt8 := .withMetaPublic

theorem privateUpload_allows (manifest : Bytes) :
    privateUpload.Allows keyFirst manifest (some 1) := rfl

theorem publicUpload_allows (manifest : Bytes) : publicUpload.Allows keyFirst manifest none :=
  fun key hkey => absurd hkey.symm (Option.some_ne_none key)

/-- Without OPFS, all that a public upload of a large file leaves is its manifest, which begins
with the mark of an object. -/
theorem lost_without_opfs {data : Bytes} (hlarge : STREAM_CHUNK_SIZE < data.length)
    (hhead : data.head? = some 7) :
    let upload := publicUpload.store serial keyFirst (SmokeStore.new false) data clipInfo 0
    ¬ ReadsBack keyFirst
        (parseOnly (publicUpload.streamManifest serial keyFirst data clipInfo 0))
        (fun _ => none) publicUpload none upload.1 upload.2.root data := by
  intro upload hback
  have hdata : data ≠ [] := List.ne_nil_of_length_pos (by omega)
  have hheld : ManifestHeld serial keyFirst
      (parseOnly (publicUpload.streamManifest serial keyFirst data clipInfo 0)) publicUpload
      data clipInfo 0 none upload.1 upload.2.root :=
    ⟨ContentUpload.manifest_stored hlarge, parseOnly_self _, publicUpload_allows _⟩
  have hnone : upload.1.opfsBlocks = none := by
    have hsome : upload.1.opfsBlocks.isSome = (SmokeStore.new false).opfsBlocks.isSome :=
      ContentUpload.opfs_store_large hlarge
    exact Option.isNone_iff_eq_none.mp (Option.isSome_eq_false_iff.mp hsome)
  have hchunks := hheld.chunks_of_readsBack keyFirst_lawful hdata hnone hback
  rw [List.forall₂_map_left_iff, ContentUpload.sealedChunks,
    slices_of_ne_nil stream_chunk_pos hdata, List.zipIdx_cons, List.map_cons] at hchunks
  cases hchunks with
  | cons hfirst _ =>
    obtain ⟨raw, hget, hopens⟩ := Option.bind_eq_some_iff.mp hfirst
    have hblocks : upload.1.blocks =
        JsMap.empty.set upload.2.root
          (publicUpload.storedManifest serial keyFirst data clipInfo 0) := by
      simp only [upload, ContentUpload.store_large hlarge, SmokeStore.saveChunkIndex,
        writeChunks_blocks]
      rfl
    rw [hblocks, JsMap.get?_set] at hget
    split at hget
    · cases hget
      have hsame : publicUpload.storedManifest serial keyFirst data clipInfo 0 =
          data.take STREAM_CHUNK_SIZE := Option.some.inj hopens
      have hbytes : publicUpload.storedManifest serial keyFirst data clipInfo 0 =
          code (publicUpload.streamManifest serial keyFirst data clipInfo 0) := rfl
      have hmark : (publicUpload.storedManifest serial keyFirst data clipInfo 0).head? =
          some 6 := by
        rw [hbytes, ContentUpload.streamManifest, code, List.head?_cons]
      rw [hsame, List.head?_take, if_neg stream_chunk_pos.ne', hhead] at hmark
      exact absurd hmark (by decide)
    · rw [JsMap.get?_empty] at hget
      cases hget

/-- Sevens: a full chunk, and one byte more. -/
@[irreducible]
def longFile : Bytes := List.replicate (STREAM_CHUNK_SIZE + 1) 7

theorem longFile_large : STREAM_CHUNK_SIZE < longFile.length := by
  rw [longFile, List.length_replicate]
  exact Nat.lt_succ_self _

theorem head_longFile : longFile.head? = some 7 := by
  rw [longFile, List.replicate_succ, List.head?_cons]

end Sample

open Sample in
/-- In a browser with OPFS, a private file of one chunk and one byte is read back. -/
theorem longFile_reads_back : STREAM_CHUNK_SIZE < longFile.length ∧ ∀ peers, ReadsBack keyFirst
    (parseOnly (privateUpload.streamManifest serial keyFirst longFile clipInfo 0)) peers
    privateUpload (some 1)
    (privateUpload.store serial keyFirst (SmokeStore.new true) longFile clipInfo 0).1
    (privateUpload.store serial keyFirst (SmokeStore.new true) longFile clipInfo 0).2.root
    longFile := by
  refine ⟨longFile_large, fun peers => ?_⟩
  have hopfs : (privateUpload.store serial keyFirst (SmokeStore.new true) longFile clipInfo
      0).1.opfsBlocks.isSome = true := by
    rw [ContentUpload.opfs_store_large longFile_large]
    rfl
  have hiff := reads_back_iff sha256_serial_injective keyFirst_lawful
    (parseOnly (privateUpload.streamManifest serial keyFirst longFile clipInfo 0)) privateUpload
    (SmokeStore.new true) longFile clipInfo 0 (parseOnly_self _) longFile_large
  exact hiff.mpr (.inl hopfs) peers (some 1) (privateUpload_allows _)

open Sample in
/-- Without OPFS, the chunks are stored nowhere, and a public file is lost. -/
theorem longFile_lost_without_opfs :
    let upload := publicUpload.store serial keyFirst (SmokeStore.new false) longFile clipInfo 0
    STREAM_CHUNK_SIZE < longFile.length ∧
      publicUpload.Allows keyFirst
        (serial.encodeJson (publicUpload.streamManifest serial keyFirst longFile clipInfo 0))
        none ∧
      ¬ ReadsBack keyFirst
        (parseOnly (publicUpload.streamManifest serial keyFirst longFile clipInfo 0))
        (fun _ => none) publicUpload none upload.1 upload.2.root longFile :=
  ⟨longFile_large, publicUpload_allows _, lost_without_opfs longFile_large head_longFile⟩

end NeuronWeb
