/-
  Relay/FaceGate: enrolment and recovery on one relay (`relay/server.ts`).

  `/face-verify/verify` attests a face for an account and takes one of the human's face slots
  and the username, provisionally; `archiveEngineBlock` makes them permanent when the account's
  open block arrives, and `releaseStaleFaceUses` gives them back when it does not.
  `/recovery-share` keeps a share of the account's recovery secret and `/recovery-share/release`
  gives it out to the face that the share is bound to.

  The verify handler awaits twice: for the hash of the descriptor and for the face database to
  be written. Everything between two awaits is one step.
-/
import NeuronWeb.Core.BlockCodec
import NeuronWeb.Relay.Trajectory

set_option autoImplicit false

namespace NeuronWeb

variable {F : Type}

/-! ## Requests per address -/

/-- The start of an address in a private range, `::ffff:` taken off. -/
def isLocalIp (ip : String) : Bool :=
  let a := if ip.startsWith "::ffff:" then (ip.drop 7).toString else ip
  ip == "unknown" || ip == "::1" || a.startsWith "127." || a.startsWith "10." ||
    a.startsWith "192.168." ||
    ((List.range 16).any fun n => a.startsWith ("172." ++ toString (16 + n) ++ "."))

structure IpWindow where
  count : Nat
  windowStart : Int

def IP_WINDOW_MS : Int := 24 * 60 * 60 * 1000

/-- `checkAndRecordIp(log, ip, max)`. -/
def checkAndRecordIp (log : JsMap String IpWindow) (ip : String) (max : Nat) (now : Int) :
    JsMap String IpWindow × Bool :=
  if isLocalIp ip then (log, true)
  else
    match log.get? ip with
    | none => (log.set ip ⟨1, now⟩, true)
    | some entry =>
      if IP_WINDOW_MS < now - entry.windowStart then (log.set ip ⟨1, now⟩, true)
      else if max ≤ entry.count then (log, false)
      else (log.set ip { entry with count := entry.count + 1 }, true)

/-! ## The state -/

inductive Network where
  | testnet
  | mainnet
  deriving DecidableEq, Repr

def Network.name : Network → String
  | .testnet => "testnet"
  | .mainnet => "mainnet"

/-- A session object; `sequence` is there for a recovery challenge. -/
structure ChallengeSession where
  type : String
  sequence : Option (List String)
  createdAt : Int
  ip : String
  used : Bool

/-- An entry of `faceDescriptorDB`; an empty `nid` is one that is missing. -/
structure FaceEntry (F : Type) where
  descriptor : List F
  count : Nat
  network : Network
  nid : String

/-- An entry of `pendingFaceUses`. -/
structure FaceUse where
  nid : String
  username : String
  usedAt : Int
  network : Network

/-- An entry of `usernameRegistry`. -/
structure UsernameClaim where
  accountId : Hex
  nid : String

/-- What the archive notes of a block. -/
structure EngineRow where
  hash : Hex
  accountId : Hex
  network : Network
  type : BlockType

structure ShareRecord (F : Type) where
  accountId : Hex
  nid : String
  network : Network
  shareHex : String
  ts : F
  x : Option Nat
  fails : Nat
  lockedUntil : Int

/-- The body of `/face-verify/verify`, its texts as the handler reads them: `challengeId` is
`String(challengeId || '')`, `faceMapHash` is `String(faceMapHash || '')`, `username` is
trimmed and in lower case. -/
structure VerifyRequest (F : Type) where
  ip : String
  network : Network
  accountId : Option String
  username : String
  challengeId : String
  descriptor : Option (List F)
  faceMapHash : String
  nullifier : Option String

/-- A verify handler at one of its awaits. -/
inductive VerifyFrame (F : Type) where
  /-- `await computeFaceMapHash(descriptor)`. -/
  | hashing (req : VerifyRequest F) (accountId : Hex) (descriptor : List F)
  /-- `await saveFaceDB()`, the session being spent and the slot taken. -/
  | saving (req : VerifyRequest F) (accountId : Hex) (nid : String) (faceCount : Nat)

structure Relay (F : Type) where
  /-- Every session object, under the UUID that it was drawn with. -/
  sessions : JsMap String ChallengeSession
  /-- The ids that the map `challengeSessions` still has. -/
  challengeSessions : JsSet String
  ipVerifyLog : JsMap String IpWindow
  ipReleaseLog : JsMap String IpWindow
  faceDescriptorDB : List (FaceEntry F)
  pendingFaceUses : JsMap Hex FaceUse
  usernameRegistry : JsMap String UsernameClaim
  engineBlockStore : JsMap Hex EngineRow
  operators : List Hex
  recoveryShareStore : JsMap String (ShareRecord F)
  /-- The verify handlers; `none` has returned. -/
  handlers : List (Option (VerifyFrame F))

/-- What the relay is configured with, and what it takes from the platform. -/
structure RelayConfig (F : Type) where
  attesterPub : Hex
  attesterPriv : Hex
  faceMaxTestnet : Nat
  /-- `v.toFixed(4)` and `v.toFixed(3)`. -/
  toFixed4 : F → String
  toFixed3 : F → String

/-- What a handler answers. -/
inductive RelayAnswer (F : Type) where
  | challenge (challengeId : String) (type : String) (expiresAt : Int)
  | recoveryChallenge (challengeId : String) (sequence : List String) (expiresAt : Int)
  | attested (nullifier : String) (attestation : TypedAttestation) (attesterPub : Hex)
  | stored
  /-- The share, wrapped for `ephPub`. -/
  | released (shareHex : String) (x : Option Nat) (ts : F)
  /-- A release attempt that fails. -/
  | denied (message : String)
  | error (status : Nat) (message : String)
  /-- The handler throws, and the server answers 500. -/
  | crashed

/-- `FACE_MAX`. -/
def RelayConfig.FACE_MAX (cfg : RelayConfig F) : Network → Nat
  | .testnet => cfg.faceMaxTestnet
  | .mainnet => 1

namespace Relay

def new : Relay F :=
  ⟨.empty, .empty, .empty, .empty, [], .empty, .empty, .empty, [], .empty, []⟩

/-! ## Challenges -/

def CHALLENGE_TTL_MS : Int := 15 * 60 * 1000

/-- `IP_MAX_PER_DAY`. -/
def IP_MAX_PER_DAY : Network → Nat
  | .testnet => 24
  | .mainnet => 12

/-- `checkIpLimit(ip, network)`. -/
def checkIpLimit (s : Relay F) (ip : String) (network : Network) (now : Int) : Bool :=
  if isLocalIp ip then true
  else
    match s.ipVerifyLog.get? ip with
    | none => true
    | some entry =>
      if IP_WINDOW_MS < now - entry.windowStart then true
      else decide (entry.count < IP_MAX_PER_DAY network)

/-- `recordIpVerification(ip)`. -/
def recordIpVerification (s : Relay F) (ip : String) (now : Int) : Relay F :=
  let window : IpWindow :=
    match s.ipVerifyLog.get? ip with
    | none => ⟨1, now⟩
    | some entry =>
      if IP_WINDOW_MS < now - entry.windowStart then ⟨1, now⟩
      else { entry with count := entry.count + 1 }
  { s with ipVerifyLog := s.ipVerifyLog.set ip window }

/-- `challengeSessions.get(id)`. -/
def session? (s : Relay F) (id : String) : Option ChallengeSession :=
  if s.challengeSessions.has id then s.sessions.get? id else none

/-- `challengeSessions.set(id, session)`; every 200 sessions the expired ones go. -/
def addSession (s : Relay F) (id : String) (session : ChallengeSession) (now : Int) : Relay F :=
  let sessions := s.sessions.set id session
  let held := JsSet.add s.challengeSessions id
  { s with
    sessions
    challengeSessions :=
      if held.keys.length % 200 = 0 then
        held.filter fun id _ =>
          (sessions.get? id).all fun session =>
            decide (now - session.createdAt ≤ CHALLENGE_TTL_MS)
      else held }

/-- `session.used = true`. -/
def spend (s : Relay F) (id : String) : Relay F :=
  { s with
    sessions :=
      match s.sessions.get? id with
      | some session => s.sessions.set id { session with used := true }
      | none => s.sessions }

/-- POST `/face-verify/challenge`: a turn to the left or to the right is asked. -/
def challenge (s : Relay F) (ip : String) (network : Network) (id : String) (left : Bool)
    (now : Int) : Relay F × RelayAnswer F :=
  if s.checkIpLimit ip network now = false then
    (s, .error 429 ("Rate limit: max " ++ toString (IP_MAX_PER_DAY network) ++
      " verifications per IP per 24h"))
  else
    let type := if left then "look-left" else "look-right"
    (s.addSession id ⟨type, none, now, ip, false⟩ now,
      .challenge id type (now + CHALLENGE_TTL_MS))

/-- POST `/recovery-share/challenge`. -/
def recoveryChallenge (s : Relay F) (ip : String) (id : String) (rolls : List Nat) (now : Int) :
    Relay F × RelayAnswer F :=
  let sequence := drawRecoverySequence rolls
  (s.addSession id ⟨"recovery", some sequence, now, ip, false⟩ now,
    .recoveryChallenge id sequence (now + CHALLENGE_TTL_MS))

/-! ## Faces -/

section Faces

variable [JsNumber F]

/-- `FACE_MATCH_THRESHOLD`. -/
def FACE_MATCH_THRESHOLD : F := JsNumber.div (JsNumber.ofInt 45) (JsNumber.ofInt 100)

/-- The loop of `findMatchingFace`: the best entry so far with its place, and its distance. -/
def closest (descriptor : List F) (network : Network) :
    List (FaceEntry F) → Nat → Option ((Nat × FaceEntry F) × F) →
      Option ((Nat × FaceEntry F) × F)
  | [], _, best => best
  | entry :: rest, i, best =>
    let d := dist descriptor entry.descriptor
    let closer := best.all fun b => JsNumber.lt d b.2
    if entry.network = network ∧ JsNumber.lt d FACE_MATCH_THRESHOLD = true ∧ closer = true then
      closest descriptor network rest (i + 1) (some ((i, entry), d))
    else closest descriptor network rest (i + 1) best

/-- `findMatchingFace(descriptor, network)`: the closest stored face, and its place. -/
def findMatchingFace (db : List (FaceEntry F)) (descriptor : List F) (network : Network) :
    Option (Nat × FaceEntry F) :=
  (closest descriptor network db 0 none).map Prod.fst

/-- `validateDescriptor(descriptor)`. -/
def validateDescriptor (descriptor : Option (List F)) : Option (List F) :=
  descriptor.filter validDescriptor

/-- `computeFaceMapHash(descriptor)`: the hash of the quantized numbers. -/
def computeFaceMapHash (P : Primitives F) (cfg : RelayConfig F) (descriptor : List F) : Hex :=
  let bin : F := JsNumber.div (JsNumber.ofInt 1) (JsNumber.ofInt 10)
  let quantized := descriptor.map fun v => JsNumber.mul (JsNumber.round (JsNumber.div v bin)) bin
  hashHex P (utf8ToBytes (",".intercalate (quantized.map cfg.toFixed4)))

/-- The running centroid: half of the stored descriptor, half of the new one. -/
def centroid (stored descriptor : List F) : List F :=
  (stored.zip descriptor).map fun v => JsNumber.div (JsNumber.add v.1 v.2) (JsNumber.ofInt 2)

end Faces

/-! ## Attesting -/

/-- `createAttestation(type, claimHash, keys)`; `none` when signing throws. -/
def createAttestation (P : Primitives F) (type claimHash : String) (pub priv : Hex) :
    Option TypedAttestation :=
  (P.sign (attestationMessage pub type claimHash) priv).map fun sig =>
    { attesterPub := pub, type, claimHash, sig }

/-- `/^[0-9a-f-]{1,64}#\d{1,4}$/i`. -/
def isAnchor (s : String) : Bool :=
  match s.splitOn "#" with
  | [head, digits] =>
    let hexOrDash (c : Char) : Bool := (hexValue c).isSome || c == '-'
    decide (1 ≤ head.length ∧ head.length ≤ 64) && head.toList.all hexOrDash &&
      decide (1 ≤ digits.length ∧ digits.length ≤ 4) && digits.toList.all Char.isDigit
  | _ => false

section Verify

variable [JsNumber F] (P : Primitives F) (cfg : RelayConfig F)

/-- POST `/face-verify/verify` up to the hash of the descriptor. -/
def verify (s : Relay F) (req : VerifyRequest F) (now : Int) : Relay F × Option (RelayAnswer F) :=
  match req.accountId.filter (· ≠ "") with
  | none => (s, some (.error 400 "accountId (engine pubkey) required"))
  | some accountId =>
    match s.session? req.challengeId with
    | none => (s, some (.error 400 "Invalid or expired challengeId"))
    | some session =>
      if session.type = "recovery" then
        (s, some (.error 400 "recovery challenge cannot be used for attestation"))
      else if session.used then (s, some (.error 400 "challengeId already used"))
      else if CHALLENGE_TTL_MS < now - session.createdAt then
        ({ s with challengeSessions := s.challengeSessions.delete req.challengeId },
          some (.error 400 "Challenge expired"))
      else
        match validateDescriptor req.descriptor with
        | none => (s, some (.error 400 "descriptor must be 128 finite numbers in (-2, 2)"))
        | some descriptor =>
          ({ s with handlers := s.handlers ++ [some (.hashing req accountId descriptor)] },
            none)

/-- The human of a face: the nid of the entry that it matches, or `uuid` where there is none;
`uuid` is what `randomUUID()` returns. -/
def nidOf (matched : Option (Nat × FaceEntry F)) (uuid : String) : String :=
  match matched with
  | some (_, entry) => if entry.nid = "" then uuid else entry.nid
  | none => uuid

/-- `matchedFace ? matchedFace.count : 0`. -/
def faceCount (s : Relay F) (descriptor : List F) (network : Network) : Nat :=
  ((findMatchingFace s.faceDescriptorDB descriptor network).map fun face => face.2.count).getD 0

/-- `matchedFace.nid = nid`. -/
def nameFace (db : List (FaceEntry F)) (matched : Option (Nat × FaceEntry F)) (nid : String) :
    List (FaceEntry F) :=
  match matched with
  | some (i, entry) => db.set i { entry with nid }
  | none => db

/-- The face takes one of its slots, or is stored with its first. -/
def takeSlot (db : List (FaceEntry F)) (matched : Option (Nat × FaceEntry F))
    (descriptor : List F) (network : Network) (nid : String) : List (FaceEntry F) :=
  match matched with
  | some (i, entry) =>
    db.set i
      { entry with
        nid
        count := entry.count + 1
        descriptor := centroid entry.descriptor descriptor }
  | none => db ++ [⟨descriptor, 1, network, nid⟩]

/-- From the hash to the commitment of the slot: what the handler answers, or the frame in
which it waits for the face database. -/
def commit (s : Relay F) (req : VerifyRequest F) (accountId : Hex) (descriptor : List F)
    (uuid : String) (now : Int) : Relay F × Except (RelayAnswer F) (VerifyFrame F) :=
  if computeFaceMapHash P cfg descriptor ≠ req.faceMapHash then
    (s, .error (.error 400 "faceMapHash does not match descriptor"))
  else if s.checkIpLimit req.ip req.network now = false then
    (s, .error (.error 429 ("Rate limit: max " ++ toString (IP_MAX_PER_DAY req.network) ++
      " verifications per IP per 24h")))
  else
    let faceMax := cfg.FACE_MAX req.network
    let matchedFace := findMatchingFace s.faceDescriptorDB descriptor req.network
    let faceCount := s.faceCount descriptor req.network
    if faceMax ≤ faceCount then
      (s, .error (.error 429 ("Face limit reached (" ++ toString faceCount ++ "/" ++
        toString faceMax ++ " on " ++ req.network.name ++ ")")))
    else
      let nid := nidOf matchedFace uuid
      let taken := (s.usernameRegistry.get? req.username).any fun existing =>
        existing.nid ≠ "" && existing.nid ≠ nid
      if req.username ≠ "" ∧ taken = true then
        ({ s with faceDescriptorDB := nameFace s.faceDescriptorDB matchedFace nid },
          .error (.error 409 "username taken"))
      else
        ({ (s.spend req.challengeId).recordIpVerification req.ip now with
            faceDescriptorDB :=
              takeSlot s.faceDescriptorDB matchedFace descriptor req.network nid },
          .ok (.saving req accountId nid faceCount))

/-- `recordOperator(accountId)`. -/
def recordOperator (s : Relay F) (accountId : Hex) : Relay F :=
  { s with
    operators :=
      if 3 ≤ s.operators.length ∨ accountId ∈ s.operators then s.operators
      else s.operators ++ [accountId] }

/-- From the face database on: the attestation, with the slot and the name held for it. -/
def attest (s : Relay F) (req : VerifyRequest F) (accountId : Hex) (nid : String)
    (faceCount : Nat) (now : Int) : Relay F × RelayAnswer F :=
  let nullifier :=
    match req.nullifier.filter isAnchor with
    | some anchor => anchor
    | none => nid ++ "#" ++ toString faceCount
  match createAttestation P "personhood" (deriveCommitment P nullifier accountId)
      cfg.attesterPub cfg.attesterPriv with
  | none => (s, .crashed)
  | some attestation =>
    let s := { s with
      pendingFaceUses := s.pendingFaceUses.set accountId ⟨nid, req.username, now, req.network⟩
      usernameRegistry :=
        if req.username = "" then s.usernameRegistry
        else s.usernameRegistry.set req.username ⟨accountId, nid⟩ }
    (s.recordOperator accountId, .attested nullifier attestation cfg.attesterPub)

/-- The turn of a verify handler whose `await` is over. -/
def resume (s : Relay F) (i : Nat) (uuid : String) (now : Int) : Relay F × Option (RelayAnswer F) :=
  match s.handlers[i]? with
  | some (some (.hashing req accountId descriptor)) =>
    let (s, outcome) := commit P cfg s req accountId descriptor uuid now
    match outcome with
    | .error answer => ({ s with handlers := s.handlers.set i none }, some answer)
    | .ok frame => ({ s with handlers := s.handlers.set i (some frame) }, none)
  | some (some (.saving req accountId nid faceCount)) =>
    let (s, answer) := attest P cfg s req accountId nid faceCount now
    ({ s with handlers := s.handlers.set i none }, some answer)
  | _ => (s, none)

end Verify

/-! ## Slots and names that become permanent, or are given back -/

/-- `archiveEngineBlock`, of a block that has been decoded. -/
def archiveEngineBlock (P : Primitives F) (s : Relay F) (block : Block F) (network : Network) :
    Relay F :=
  if !verifyBlock P block || s.engineBlockStore.has block.hash then s
  else
    { s with
      engineBlockStore :=
        s.engineBlockStore.set block.hash ⟨block.hash, block.accountId, network, block.type⟩
      pendingFaceUses :=
        if block.type = .open then s.pendingFaceUses.delete block.accountId
        else s.pendingFaceUses }

def FACE_USE_TTL_MS : Int := 5 * 60 * 1000

/-- `entry.count--` on the first entry with this nid and network. -/
def releaseSlot (nid : String) (network : Network) : List (FaceEntry F) → List (FaceEntry F)
  | [] => []
  | entry :: rest =>
    if entry.nid = nid ∧ entry.network = network then
      { entry with count := entry.count - 1 } :: rest
    else entry :: releaseSlot nid network rest

/-- One turn of the loop of `releaseStaleFaceUses`. -/
def releaseUse (now : Int) (s : Relay F) (entry : Hex × FaceUse) : Relay F :=
  let (accountId, use) := entry
  if now - use.usedAt < FACE_USE_TTL_MS then s
  else
    { s with
      pendingFaceUses := s.pendingFaceUses.delete accountId
      faceDescriptorDB := releaseSlot use.nid use.network s.faceDescriptorDB
      usernameRegistry :=
        -- only when the name is still held by this abandoned attempt
        if use.username ≠ "" ∧
            (s.usernameRegistry.get? use.username).any fun claim => claim.accountId = accountId then
          s.usernameRegistry.delete use.username
        else s.usernameRegistry }

def releaseStaleFaceUses (s : Relay F) (now : Int) : Relay F :=
  s.pendingFaceUses.entries.foldl (releaseUse now) s

/-! ## Recovery shares -/

/-- `/^0[23][0-9a-f]{64}$/i`. -/
def isAccountId (s : String) : Bool :=
  match s.toList with
  | '0' :: d :: rest => (d == '2' || d == '3') && rest.length == 64 &&
      rest.all fun c => (hexValue c).isSome
  | _ => false

/-- `/^[0-9a-f]{64}$/i`. -/
def isShare (s : String) : Bool :=
  s.length == 64 && s.toList.all fun c => (hexValue c).isSome

/-- `/^04[0-9a-f]{128}$/i`. -/
def isEphPub (s : String) : Bool :=
  match s.toList with
  | '0' :: '4' :: rest => rest.length == 128 && rest.all fun c => (hexValue c).isSome
  | _ => false

/-- The body of `/recovery-share`; a field of the wrong type is `none`. -/
structure StoreRequest (F : Type) where
  network : Network
  accountId : Option String
  share : Option String
  ts : Option F
  sig : Option String
  /-- `undefined`, or the value with whether it is a whole number from 1 to 255. -/
  x : Option (Option Nat)
  descriptor : Option (List F)

/-- The body of `/recovery-share/release`; `challengeId` is `String(challengeId || '')`. -/
structure ReleaseRequest (F : Type) where
  ip : String
  network : Network
  accountId : Option String
  ephPub : Option String
  challengeId : String
  proof : Json F

/-- `${network}:${accountId}`. -/
def shareKey (network : Network) (accountId : Hex) : String := network.name ++ ":" ++ accountId

/-- `nidForAccount(accountId)`; `""` for `null`. -/
def nidForAccount (s : Relay F) (accountId : Hex) : String :=
  match (s.pendingFaceUses.get? accountId).filter fun use => use.nid ≠ "" with
  | some use => use.nid
  | none =>
    ((s.usernameRegistry.values.find? fun claim =>
      claim.accountId = accountId && claim.nid ≠ "").map UsernameClaim.nid).getD ""

section Shares

variable [JsNumber F] (P : Primitives F) (cfg : RelayConfig F)

/-- The text that the owner signs for a store. -/
def sharePayload (accountId : Hex) (network : Network) (x : Option Nat) (share : String) (ts : F) :
    String :=
  let x := match x with
    | some x => toString x ++ ":"
    | none => ""
  "recovery-share:" ++ accountId ++ ":" ++ network.name ++ ":" ++ x ++ share ++ ":" ++
    JsNumber.toText ts

/-- The human that a store binds: what is bound already, this relay's own attestation, a live
descriptor of a known face. -/
def nidToBind (s : Relay F) (existing : Option (ShareRecord F)) (accountId : Hex)
    (descriptor : Option (List F)) (network : Network) : String :=
  let nid := match existing with
    | some record => record.nid
    | none => s.nidForAccount accountId
  if nid ≠ "" then nid
  else
    match (validateDescriptor descriptor).bind fun d =>
        findMatchingFace s.faceDescriptorDB d network with
    | some (_, matched) => matched.nid
    | none => ""

/-- POST `/recovery-share`. -/
def storeShare (s : Relay F) (req : StoreRequest F) : Relay F × RelayAnswer F :=
  let malformed : Relay F × RelayAnswer F :=
    (s, .error 400 "accountId, share (32-byte hex), ts, sig (and optional x 1..255) required")
  match req.accountId.filter isAccountId, req.share.filter isShare, req.ts, req.sig, req.x with
  | some accountId, some share, some ts, some sig, x =>
    if x = some none then malformed
    else
      let x := x.join
      if !P.verify sig (sharePayload accountId req.network x share ts) accountId then
        (s, .error 403 "invalid signature")
      else
        let key := shareKey req.network accountId
        let existing := s.recoveryShareStore.get? key
        if existing.any fun record => JsNumber.le ts record.ts then
          (s, .error 409 "stale ts (replay?)")
        else
          let nid := s.nidToBind existing accountId req.descriptor req.network
          if nid = "" then
            (s, .error 409 "no attested identity for this accountId on this relay")
          else
            ({ s with
              recoveryShareStore := s.recoveryShareStore.set key
                { accountId, nid, network := req.network, shareHex := share.toLower, ts, x
                  fails := (existing.map ShareRecord.fails).getD 0
                  lockedUntil := (existing.map ShareRecord.lockedUntil).getD 0 } },
              .stored)
  | _, _, _, _, _ => malformed

/-- `releaseBackoffMs(fails)`. -/
def releaseBackoffMs (fails : Nat) : Int :=
  if fails ≤ 3 then 0 else min 86400000 (30000 * 4 ^ (fails - 4))

/-- `RELEASE_IP_MAX_PER_DAY`. -/
def RELEASE_IP_MAX_PER_DAY : Nat := 30

/-- `fail(msg)`: the record counts the attempt and is locked for the time that follows. -/
def failRelease (s : Relay F) (key : String) (record : ShareRecord F) (message : String)
    (now : Int) : Relay F × RelayAnswer F :=
  let fails := record.fails + 1
  ({ s with
    recoveryShareStore := s.recoveryShareStore.set key
      { record with fails, lockedUntil := now + releaseBackoffMs fails } },
    .denied message)

/-- The descriptor lands on the human that the share is bound to. -/
def matchesNid (s : Relay F) (network : Network) (nid : String) (descriptor : List F) : Bool :=
  (findMatchingFace s.faceDescriptorDB descriptor network).any fun matched =>
    matched.2.nid ≠ "" && matched.2.nid == nid

/-- The attempt itself, on a record that is not locked. -/
def evaluateRelease (s : Relay F) (req : ReleaseRequest F) (key : String) (record : ShareRecord F)
    (sequence : List String) (now : Int) : Relay F × RelayAnswer F :=
  match verifyTrajectory cfg.toFixed3 sequence req.proof with
  | .throws => (s, .crashed)
  | .rejected reason => s.failRelease key record ("trajectory rejected: " ++ reason) now
  | .ok =>
    if (descriptorsOf req.proof).all (s.matchesNid req.network record.nid) = false then
      s.failRelease key record "face does not match this account" now
    else
      ({ s with
        recoveryShareStore := s.recoveryShareStore.set key
          { record with fails := 0, lockedUntil := 0 } },
        .released record.shareHex record.x record.ts)

/-- POST `/recovery-share/release`. -/
def releaseShare (s : Relay F) (req : ReleaseRequest F) (now : Int) : Relay F × RelayAnswer F :=
  match req.accountId, req.ephPub.filter isEphPub with
  | some accountId, some _ =>
    match (s.session? req.challengeId).filter fun session =>
        !session.used && session.type == "recovery" &&
          decide (now - session.createdAt ≤ CHALLENGE_TTL_MS) with
    | some ⟨_, some sequence, _, _, _⟩ =>
      let s := s.spend req.challengeId
      let (log, allowed) :=
        checkAndRecordIp s.ipReleaseLog req.ip RELEASE_IP_MAX_PER_DAY now
      let s := { s with ipReleaseLog := log }
      if allowed = false then
        (s, .error 429 ("Rate limit: max " ++ toString RELEASE_IP_MAX_PER_DAY ++
          " release attempts per IP per 24h"))
      else
        let key := shareKey req.network accountId
        match s.recoveryShareStore.get? key with
        | none => (s, .error 404 "no share for this account on this relay")
        | some record =>
          if now < record.lockedUntil then
            (s, .error 429 ("locked - try again in " ++
              toString ((record.lockedUntil - now + 999) / 1000) ++ "s"))
          else evaluateRelease cfg s req key record sequence now
    | _ => (s, .error 400 "invalid, used or expired recovery challengeId")
  | _, _ => (s, .error 400 "accountId and ephPub (uncompressed P-256 hex) required")

end Shares

/-! ## Runs -/

/-- What reaches the relay: requests, the turns of the verify handlers, archived blocks and
the timer. -/
inductive Input (F : Type) where
  | challenge (ip : String) (network : Network) (id : String) (left : Bool) (now : Int)
  | recoveryChallenge (ip : String) (id : String) (rolls : List Nat) (now : Int)
  | verify (req : VerifyRequest F) (now : Int)
  | resume (i : Nat) (uuid : String) (now : Int)
  | archive (block : Block F) (network : Network)
  | releaseStale (now : Int)
  | storeShare (req : StoreRequest F)
  | releaseShare (req : ReleaseRequest F) (now : Int)

section Step

variable [JsNumber F] (P : Primitives F) (cfg : RelayConfig F)

/-- The handler answers at once. -/
def answering (r : Relay F × RelayAnswer F) : Relay F × Option (RelayAnswer F) := (r.1, some r.2)

/-- One input, with the answer that it brings about. -/
def handle (s : Relay F) : Input F → Relay F × Option (RelayAnswer F)
  | .challenge ip network challengeId left now =>
    answering (s.challenge ip network challengeId left now)
  | .recoveryChallenge ip challengeId rolls now =>
    answering (s.recoveryChallenge ip challengeId rolls now)
  | .verify req now => s.verify req now
  | .resume i uuid now => s.resume P cfg i uuid now
  | .archive block network => (archiveEngineBlock P s block network, none)
  | .releaseStale now => (s.releaseStaleFaceUses now, none)
  | .storeShare req => answering (s.storeShare P req)
  | .releaseShare req now => answering (s.releaseShare cfg req now)

def step (s : Relay F) (input : Input F) : Relay F := (s.handle P cfg input).1

end Step

end Relay

end NeuronWeb
