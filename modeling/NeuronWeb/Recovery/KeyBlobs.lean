/-
  Recovery/KeyBlobs: the key blobs that relays keep for wiped devices (`relay/server.ts`,
  `network/recovery-share.ts`, `network/libp2p-network.ts`).

  A blob is whatever JSON arrives with three texts in it. A client asks every relay and takes
  the newest answer.
-/
import NeuronWeb.Directory.Records
import NeuronWeb.Foundation.Contest

set_option autoImplicit false

namespace NeuronWeb

open Relay

variable {F : Type} [JsNumber F]

/-- Blob writes and fetches per address and day. -/
def BLOB_IP_MAX_PER_DAY : Nat := 60

/-- `Number(b.updatedAt ?? b.createdAt ?? 0)`; `none` when it throws. -/
def blobTs (T : JsText F) (b : Json F) : Option F :=
  match b.property "updatedAt" with
  | none | some .null => Json.numberOrZero T (b.property "createdAt")
  | some v => Json.numberOrZero T (some v)

/-- `ts(b) > ts(best)`; `none` when it throws. -/
def newerBlob (T : JsText F) (b best : Json F) : Option Bool :=
  match blobTs T b, blobTs T best with
  | some v, some w => some (JsNumber.lt w v)
  | _, _ => none

/-! ## A relay -/

/-- `{ ...blob, network }`. -/
structure KeyBlobRow (F : Type) where
  network : Network
  blob : Json F

structure KeyBlobRelay (F : Type) where
  /-- `ARCHIVE_ENABLED`. -/
  archiveEnabled : Bool
  ipBlobLog : JsMap String IpWindow
  /-- pub → `{ ...blob, network }`. -/
  keyBlobStore : JsMap String (KeyBlobRow F)

/-- `POST /keyblob`; the body is an error message when it cannot be read. -/
structure KeyBlobPost (F : Type) where
  ip : String
  network : Network
  body : Except String (Json F)

/-- `GET /keyblob`; a parameter that is missing is empty. -/
structure KeyBlobGet where
  ip : String
  network : Network
  username : String
  pub : String

inductive KeyBlobAnswer (F : Type) where
  | stored
  | blob (b : Json F)
  | error (status : Nat) (message : String)
  /-- The handler throws, and the server answers 500. -/
  | crashed

namespace KeyBlobRelay

variable (T : JsText F) (s : KeyBlobRelay F)

/-- Keep the newest per account; `none` when the comparison throws. -/
def archiveKeyBlob (blob : Json F) (network : Network) : Option (KeyBlobRelay F) :=
  if !s.archiveEnabled || Json.missing (blob.property "pub") ||
      Json.missing (blob.property "username") || Json.missing (blob.property "encryptedKeys") then
    some s
  else
    match Json.asString (blob.property "pub") with
    | none => some s
    | some pub =>
      let archived :=
        { s with keyBlobStore := s.keyBlobStore.set pub ⟨network, blob.without "network"⟩ }
      match s.keyBlobStore.get? pub with
      | none => some archived
      | some existing =>
        match blobTs T existing.blob, blobTs T blob with
        | some old, some new => some (if JsNumber.le new old then s else archived)
        | _, _ => none

/-- `body?.blob`, when it has the three texts. -/
def postedBlob (body : Json F) : Option (Json F) :=
  (body.property "blob").filter fun blob =>
    (Json.asString (blob.property "pub")).isSome &&
      (Json.asString (blob.property "encryptedKeys")).isSome &&
      (Json.asString (blob.property "username")).isSome

def postKeyBlob (req : KeyBlobPost F) (now : Int) : KeyBlobRelay F × KeyBlobAnswer F :=
  let (ipBlobLog, allowed) := checkAndRecordIp s.ipBlobLog req.ip BLOB_IP_MAX_PER_DAY now
  let s := { s with ipBlobLog }
  if allowed = false then
    (s, .error 429 ("Rate limit: max " ++ toString BLOB_IP_MAX_PER_DAY ++
      " blob writes per IP per 24h"))
  else
    match req.body with
    | .error message => (s, .error 400 message)
    | .ok body =>
      match postedBlob body with
      | none => (s, .error 400 "blob\x7bpub, encryptedKeys, username\x7d required")
      | some blob =>
        match s.archiveKeyBlob T blob req.network with
        | none => (s, .crashed)
        | some s => (s, .stored)

/-- The blob of a row, when the request asks for it. -/
def asked (req : KeyBlobGet) (row : KeyBlobRow F) : Option (Json F) :=
  if row.network ≠ req.network then none
  else if req.pub = "" then
    if Json.asString (row.blob.property "username") = some (T.canonical req.username) then
      some row.blob
    else none
  else if Json.asString (row.blob.property "pub") = some req.pub then some row.blob
  else none

def getKeyBlob (req : KeyBlobGet) (now : Int) : KeyBlobRelay F × KeyBlobAnswer F :=
  let (ipBlobLog, allowed) := checkAndRecordIp s.ipBlobLog req.ip BLOB_IP_MAX_PER_DAY now
  let s := { s with ipBlobLog }
  if allowed = false then
    (s, .error 429 ("Rate limit: max " ++ toString BLOB_IP_MAX_PER_DAY ++
      " blob fetches per IP per 24h"))
  else
    match Contest.contest (newerBlob T) (asked T req) none s.keyBlobStore.values with
    | none => (s, .crashed)
    | some none => (s, .error 404 "no blob")
    | some (some best) => (s, .blob best)

end KeyBlobRelay

/-! ## A client -/

/-- The value of a settled request; a failed one has none. -/
def KeyBlobAnswer.value : KeyBlobAnswer F → Option (Json F)
  | .blob b => some b
  | _ => none

inductive KeyBlobQuery where
  | username (username : String)
  | pub (pub : String)

/-- The request that the client sends for its query. -/
def KeyBlobQuery.sent (T : JsText F) (ip : String) (network : Network) : KeyBlobQuery → KeyBlobGet
  | .username name => ⟨ip, network, T.canonical name, ""⟩
  | .pub key => ⟨ip, network, "", key⟩

/-- What comes back from the relays; `reached n` says whether the request to the `n`-th relay
is answered in time. -/
def keyBlobAnswers (T : JsText F) (relays : List (KeyBlobRelay F)) (reached : Nat → Bool)
    (req : KeyBlobGet) (now : Int) : List (Option (Json F)) :=
  relays.mapIdx fun n relay =>
    if reached n then (relay.getKeyBlob T req now).2.value else none

/-- `r.value?.pub` and `r.value?.encryptedKeys` are there. -/
def usableBlob (b : Json F) : Bool :=
  !Json.missing (b.property "pub") && !Json.missing (b.property "encryptedKeys")

/-- The newest key blob of the answers; `none` when it throws. -/
def fetchKeyBlobFromRelays (T : JsText F) (answers : List (Option (Json F))) :
    Option (Option (Json F)) :=
  Contest.contest (newerBlob T) (fun answer => answer.filter usableBlob) none answers

/-- `matches.sort((a, b) => ts(b) - ts(a))`, a stable sort; `none` when a comparison throws. -/
def sortByNewest (T : JsText F) (found : List (Json F)) : Option (List (Json F)) :=
  if found.length < 2 then some found
  else
    (found.mapM fun b => (blobTs T b).map fun ts => (ts, b)).map fun stamped =>
      (stamped.mergeSort fun a b =>
        !JsNumber.lt (JsNumber.ofInt 0) (JsNumber.sub b.1 a.1)).map Prod.snd

/-- The `keyblobs` store of the local database, by `pub`. -/
abbrev LocalKeyBlobs (F : Type) := JsMap String (Json F)

/-- The fast path of `findKeyBlobByUsername`; an exception falls through to the slow one. -/
def LocalKeyBlobs.newestFor (T : JsText F) (keyblobs : LocalKeyBlobs F) (username : String) :
    Option (Json F) :=
  (sortByNewest T (keyblobs.values.filter fun b =>
    Json.asString (b.property "username") = some username)).bind List.head?

/-- `findKeyBlobByUsername`, with the answers of the relays; the blob is `none` when it
throws. -/
def findKeyBlobByUsername (T : JsText F) (keyblobs : LocalKeyBlobs F) (username : String)
    (answers : List (Option (Json F))) : LocalKeyBlobs F × Option (Option (Json F)) :=
  match keyblobs.newestFor T username with
  | some b => (keyblobs, some (some b))
  | none =>
    match fetchKeyBlobFromRelays T answers with
    | some (some b) =>
      match Json.asString (b.property "pub") with
      | some pub => (keyblobs.set pub b, some (some b))
      | none => (keyblobs, some (some b))
    | found => (keyblobs, found)

end NeuronWeb
