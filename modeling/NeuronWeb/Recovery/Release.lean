/-
  Recovery/Release: releasing the recovery secret of an account
  (`network/recovery-share.ts`, `relay/server.ts`).

  A relay wraps its share for the key of the request, and sends the x-coordinate and the time of
  the split along in the clear.  The client takes one answer after another, until one of them
  completes the secret.  A relay may answer with any JSON at all.
-/
import NeuronWeb.Recovery.Shamir

set_option autoImplicit false

namespace NeuronWeb

variable {F K : Type}

/-! ## Wrapping a share -/

/-- What the release takes from the platform.  An error is the message of an exception. -/
structure ReleaseEnv (F K : Type) where
  indexing : JsIndexing F
  /-- The raw public key of an ECDH key pair. -/
  publicRaw : K → Bytes
  /-- `importKey` of a raw public key, and `deriveBits` with it. -/
  deriveBits : Bytes → K → Except String Bytes
  sha256 : Bytes → Bytes
  /-- AES-GCM, with the key and the IV. -/
  encrypt : Bytes → Bytes → Bytes → Bytes
  decrypt : Bytes → Bytes → Bytes → Except String Bytes
  /-- `unhex` of what is not hex: there may be nothing to match, and `parseInt` reads wrong
  digits as it can. -/
  unhexOther : Json F → Except String Bytes
  /-- The message when a property of `null` is read. -/
  nullMessage : String

/-- The record that a relay keeps for an account; without `x` it is the full secret. -/
structure CustodyRecord where
  shareHex : String
  x : Option Nat
  ts : Int

namespace ReleaseEnv

variable (E : ReleaseEnv F K)

/-- `wrapShareForClient`, with a fresh key pair and a fresh IV; `none` when it throws. -/
def wrapShareForClient (eph : K) (iv : Bytes) (shareHex clientEphPubHex : String) :
    Option (List (String × Json F)) := do
  let clientPub ← hexToBytes clientEphPubHex
  let bits ← (E.deriveBits clientPub eph).toOption
  let share ← hexToBytes shareHex
  let ct := E.encrypt (E.sha256 bits) iv share
  return [("ephPub", .str (bytesToHex (E.publicRaw eph))), ("iv", .str (bytesToHex iv)),
    ("ct", .str (bytesToHex ct))]

/-- The answer of `/recovery-share/release` with a share. -/
def releaseResponse (eph : K) (iv : Bytes) (record : CustodyRecord) (clientEphPubHex : String) :
    Option (Json F) :=
  (E.wrapShareForClient eph iv record.shareHex clientEphPubHex).map fun wrapped =>
    .obj (wrapped ++ ((record.x.filter (· ≠ 0)).map fun x => ("x", .int x)).toList ++
      [("ts", .int record.ts)])

def unhex : Json F → Except String Bytes
  | .str s =>
    match hexToBytes s with
    | some (b :: rest) => .ok (b :: rest)
    | _ => E.unhexOther (.str s)
  | v => E.unhexOther v

/-- What the client unwraps with the key of its request. -/
def unwrap (eph : K) (ephPub iv ct : Json F) : Except String Bytes := do
  let relayRaw ← E.unhex ephPub
  let bits ← E.deriveBits relayRaw eph
  let iv ← E.unhex iv
  let ct ← E.unhex ct
  E.decrypt (E.sha256 bits) iv ct

end ReleaseEnv

/-! ## One answer -/

inductive ReleaseReply (F : Type) where
  | unreachable (message : String)
  /-- A status that is not ok; the body is `none` when it is no JSON. -/
  | refused (status : Nat) (body : Option (Json F))
  | released (body : Except String (Json F))

/-- One challenged relay. -/
structure ReleaseAttempt (F K : Type) where
  hasProof : Bool
  eph : K
  reply : ReleaseReply F

/-- What an answer comes to. -/
inductive Opened (F : Type) where
  | skipped
  | failed (reason : Json F) (retryAfterS : Option F)
  | opened (data : Bytes) (x : Option (Json F)) (ts : Json F)

/-- `(e as Error).message || 'relay unreachable'`. -/
def messageOf (message : String) : Json F :=
  .str (if message = "" then "relay unreachable" else message)

section Answer

variable [JsNumber F] (E : ReleaseEnv F K)

/-- The error of an answer that is not ok. -/
def refusal (status : Nat) (err : Json F) : Opened F :=
  match err with
  | .null => .failed (messageOf E.nullMessage) none
  | err =>
    let reason := ((err.property "error").filter fun v => !v.falsy).getD
      (.str ("release " ++ toString status))
    .failed reason (Json.asNumber (err.property "retryAfterS"))

/-- A wrapped share, read by the client. -/
def openWrapped (eph : K) (wrapped : Json F) : Opened F :=
  match (wrapped.property "ephPub").filter fun v => !v.falsy,
      (wrapped.property "iv").filter fun v => !v.falsy,
      (wrapped.property "ct").filter fun v => !v.falsy with
  | some ephPub, some iv, some ct =>
    match E.unwrap eph ephPub iv ct with
    | .error message => .failed (messageOf message) none
    | .ok data =>
      if data.length ≠ 32 then .failed (.str "bad share length") none
      else
        .opened data (wrapped.property "x") (match wrapped.property "ts" with
          | none | some .null => .int 0
          | some ts => ts)
  | _, _, _ => .failed (.str "malformed release response") none

def openAnswer (a : ReleaseAttempt F K) : Opened F :=
  if a.hasProof = false then .skipped
  else
    match a.reply with
    | .unreachable message => .failed (messageOf message) none
    | .refused status body => refusal E status (body.getD (.obj []))
    | .released (.error message) => .failed (messageOf message) none
    | .released (.ok wrapped) => openWrapped E a.eph wrapped

/-! ## The loop -/

structure RecoveryShare (F : Type) extends ShamirShare F where
  ts : Json F

structure ReleaseState (F : Type) where
  shares : List (RecoveryShare F)
  lastReason : Json F
  retryAfterS : Option F

inductive ReleaseResult (F : Type) where
  | ok (secret : Bytes)
  | failed (reason : Json F) (retryAfterS : Option F)

/-- `s.x !== t.x && s.ts === t.ts`. -/
def pairs (s t : RecoveryShare F) : Bool := !s.x.strictEq t.x && s.ts.strictEq t.ts

/-- The body of the loop: the secret when it is complete.  The partner of a share stands before
it, since the share itself has its own `x`. -/
def ReleaseState.take (st : ReleaseState F) : Opened F → Bytes ⊕ ReleaseState F
  | .skipped => .inr st
  | .failed reason retryAfterS =>
    .inr { st with
      lastReason := reason
      retryAfterS := match retryAfterS with
        | some s => some (JsNumber.max (st.retryAfterS.getD (JsNumber.ofInt 0)) s)
        | none => st.retryAfterS }
  | .opened data x ts =>
    match x.filter fun v => !v.falsy with
    | none => .inl data
    | some x =>
      let share : RecoveryShare F := ⟨⟨x, data⟩, ts⟩
      let shares := st.shares ++ [share]
      match st.shares.find? (pairs · share) with
      | some partner =>
        match shamirCombine E.indexing partner.toShamirShare share.toShamirShare with
        | .ok secret => .inl secret
        | .error message => .inr { st with shares, lastReason := messageOf message }
      | none =>
        .inr { st with
          shares, lastReason := .str "one share obtained — need a second relay" }

def ReleaseState.takeAll : List (Opened F) → ReleaseState F → ReleaseResult F
  | [], st => .failed st.lastReason st.retryAfterS
  | answer :: rest, st =>
    match st.take E answer with
    | .inl secret => .ok secret
    | .inr st => takeAll rest st

/-- `releaseRecoveryShare`: the challenged relays in their order.  Once the secret is complete
no other relay is asked. -/
def releaseRecoveryShare (attempts : List (ReleaseAttempt F K)) : ReleaseResult F :=
  ReleaseState.takeAll E (attempts.map (openAnswer E)) ⟨[], .str "no relay reachable", none⟩

end Answer

end NeuronWeb
