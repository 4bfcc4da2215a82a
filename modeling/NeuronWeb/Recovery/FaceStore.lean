/-
  Recovery/FaceStore: the keys of an account, locked behind a face, a PIN and a share
  (`core/face-store.ts`, with what it uses of `core/face-verify.ts` and `core/pin-crypto.ts`).

  A blob of version 3 seals the keys under the XOR of three factors, and the enrolled face
  descriptor under the XOR of two of them; version 2 has no share, version 1 seals in two layers
  and version 0 under the face alone.
-/
import NeuronWeb.Core.Base64
import NeuronWeb.Core.BlockArchive

set_option autoImplicit false

namespace NeuronWeb.FaceStore

open JsonText

variable {F : Type}

/-- What the file takes from the platform. -/
structure Env (F : Type) where
  /-- PBKDF2 of a password and a salt, with SHA-256 and 100,000 iterations. -/
  pbkdf2Sha256 : Bytes → Bytes → Bytes
  /-- PBKDF2 of a password and a salt, with SHA-512 and 600,000 iterations. -/
  pbkdf2Sha512 : Bytes → Bytes → Bytes
  /-- AES-GCM, with the key and the IV. -/
  encrypt : Bytes → Bytes → Bytes → Bytes
  decrypt : Bytes → Bytes → Bytes → Option Bytes
  sha256 : Bytes → Bytes
  /-- What `TextDecoder` takes from it. -/
  platform : BlockArchive.Platform
  /-- `String(x)`, as `JSON.stringify` writes a number. -/
  numberText : F → String
  /-- The number that a numeral of JSON writes. -/
  readNumber : String → F
  /-- `x.toFixed(4)`. -/
  toFixed4 : F → String

/-- An IV of AES-GCM. -/
abbrev Iv := { iv : Bytes // iv.length = 12 }

structure KeyPair where
  pub : String
  priv : String
  epub : String
  epriv : String
  pqPub : Option String
  pqPriv : Option String
  pqKemPub : Option String
  pqKemPriv : Option String

def KeyPair.toJson (keys : KeyPair) : Value :=
  .obj ([("pub", .str keys.pub), ("priv", .str keys.priv), ("epub", .str keys.epub),
      ("epriv", .str keys.epriv)] ++
    Json.field? "pqPub" (keys.pqPub.map Json.str) ++
    Json.field? "pqPriv" (keys.pqPriv.map Json.str) ++
    Json.field? "pqKemPub" (keys.pqKemPub.map Json.str) ++
    Json.field? "pqKemPriv" (keys.pqKemPriv.map Json.str))

/-- `Pick<PinAttemptState, 'failedAttempts' | 'lockedUntil'>`. -/
structure AttemptState where
  failedAttempts : Int
  lockedUntil : Int
  deriving DecidableEq

def AttemptState.toJson (state : AttemptState) : Value :=
  .obj [("failedAttempts", .num (toString state.failedAttempts)),
    ("lockedUntil", .num (toString state.lockedUntil))]

def NO_ATTEMPTS : AttemptState := ⟨0, 0⟩

structure EncryptedKeyBlob where
  encryptedKeys : String
  faceMapHash : String
  username : String
  pub : String
  createdAt : Int
  linkedAnchor : Option String
  pinSalt : Option String
  pinVersion : Option Nat
  pinAttemptState : Option String
  pinVerifier : Option String
  encryptedCanonical : Option String
  updatedAt : Option Int

/-! ## Faces -/

section Faces

variable [JsNumber F]

def MATCH_THRESHOLD : F := JsNumber.div (JsNumber.ofInt 45) (JsNumber.ofInt 100)

def QUANT_BIN : F := JsNumber.div (JsNumber.ofInt 1) (JsNumber.ofInt 10)

/-- One value, rounded to the nearest bin. -/
def quantize (v : F) : F := JsNumber.mul (JsNumber.round (JsNumber.div v QUANT_BIN)) QUANT_BIN

def quantizeDescriptor (descriptor : List F) : List F := descriptor.map quantize

/-- `sum + (x - y) ** 2`. -/
def addSquare (sum : F) (e : F × F) : F :=
  JsNumber.add sum (JsNumber.pow (JsNumber.sub e.1 e.2) (JsNumber.ofInt 2))

/-- `compareFaces(a, b).distance`; `none` is not-a-number, when an entry is not there. -/
def faceDistance (a b : List F) : Option F :=
  if a.length < 128 ∨ b.length < 128 then none
  else some (JsNumber.sqrt (((a.zip b).take 128).foldl addSquare (JsNumber.ofInt 0)))

/-- `compareFaces(a, b).match`. -/
def compareFaces (a b : List F) : Bool :=
  (faceDistance a b).any fun distance => JsNumber.lt distance MATCH_THRESHOLD

/-- The biometric gate; the trace that it writes is left out. -/
def matchOrLog (storedCanonical liveDescriptor : List F) : Bool :=
  compareFaces storedCanonical liveDescriptor

/-- A descriptor as a value of JSON. -/
def Env.descriptorJson (E : Env F) (descriptor : List F) : Value :=
  .arr (descriptor.map fun x => .num (E.numberText x))

def Env.numberOf (E : Env F) : Value → Option F
  | .num text => some (E.readNumber text)
  | .int n => some (JsNumber.ofInt n)
  | _ => none

/-- `JSON.parse(text) as number[]`. -/
def Env.descriptorOf (E : Env F) : Value → Option (List F)
  | .arr items => items.mapM E.numberOf
  | _ => none

end Faces

/-! ## Keys -/

namespace Env

variable (E : Env F)

/-- `encryptWithPinKey` and `encryptWithFaceKey`: base64 of the IV and the ciphertext. -/
def sealText (data : String) (key : Bytes) (iv : Iv) : String :=
  btoa (iv.val ++ E.encrypt key iv.val (utf8ToBytes data))

/-- `decryptWithPinKey` and `decryptWithFaceKey`. -/
def openText (sealed : String) (key : Bytes) : Option String := do
  let combined ← atob sealed
  let plain ← E.decrypt key (combined.take 12) (combined.drop 12)
  return BlockArchive.textDecode E.platform plain

def encryptWithPinKey (data : String) (key : Bytes) (iv : Iv) : String := E.sealText data key iv

def decryptWithPinKey (encrypted : String) (key : Bytes) : Option String :=
  E.openText encrypted key

def encryptWithFaceKey (data : String) (faceKey : Bytes) (iv : Iv) : String :=
  E.sealText data faceKey iv

def decryptWithFaceKey (encrypted : String) (faceKey : Bytes) : Option String :=
  E.openText encrypted faceKey

/-- `derivePinRawBits`, and the key of `derivePinKey`. -/
def derivePinRawBits (pin : String) (salt : Bytes) : Bytes := E.pbkdf2Sha512 (utf8ToBytes pin) salt

/-- `deriveFaceRawBits`, and the key of `deriveFaceKey`. -/
def deriveFaceRawBits (quantized : List F) (accountPub : String) : Bytes :=
  E.pbkdf2Sha256 (utf8ToBytes (",".intercalate (quantized.map E.toFixed4)))
    (utf8ToBytes ("neuronchain-face-v2:" ++ accountPub))

def deriveFaceKey (quantized : List F) (accountPub : String) : Bytes :=
  E.deriveFaceRawBits quantized accountPub

end Env

/-- XOR any number of 32-byte factors into one key; a byte that is not there counts as zero. -/
def xorKey (parts : List Bytes) : Bytes :=
  (List.range 32).map fun i => parts.foldl (fun xored p => xored ^^^ p.getD i 0) 0

/-- The key of version 2. -/
def deriveCombinedKey (faceBytes pinBytes : Bytes) : Bytes := xorKey [faceBytes, pinBytes]

/-- The outer key of version 3. -/
def deriveTripleKey (faceBytes pinBytes shareBytes : Bytes) : Bytes :=
  xorKey [faceBytes, pinBytes, shareBytes]

namespace Env

variable (E : Env F)

def computeLinkedAnchor (encryptedKeys faceMapHash pub : String) : String :=
  bytesToHex (E.sha256 (utf8ToBytes (encryptedKeys ++ ":" ++ faceMapHash ++ ":" ++ pub)))

/-! ## Attempt state -/

def encryptAttemptState (state : AttemptState) (faceKey : Bytes) (iv : Iv) : String :=
  E.encryptWithFaceKey (stringify state.toJson) faceKey iv

/-- What was sealed; `none` also for a sealed `null`. -/
def decryptAttemptState (encrypted : String) (faceKey : Bytes) : Option Value :=
  match E.decryptWithFaceKey encrypted faceKey with
  | some raw =>
    if raw = "" then none
    else
      match parse raw with
      | some .null => none
      | parsed => parsed
  | none => none

def readAttemptState (blob : EncryptedKeyBlob) (faceKey : Bytes) : Value :=
  match blob.pinAttemptState with
  | some sealed =>
    if sealed = "" then NO_ATTEMPTS.toJson
    else (E.decryptAttemptState sealed faceKey).getD NO_ATTEMPTS.toJson
  | none => NO_ATTEMPTS.toJson

end Env

/-! ## Creating a blob -/

/-- The random bytes that `createEncryptedKeyBlob` draws, and its two looks at the clock. -/
structure Draws where
  salt : { salt : Bytes // salt.length = 32 }
  keysIv : Iv
  canonicalIv : Iv
  verifierIv : Iv
  stateIv : Iv
  createdAt : Int
  updatedAt : Int

/-- The part of the blob that depends on its version. -/
structure SealedPart where
  encryptedKeys : String
  pinSalt : Option String
  pinVersion : Nat
  pinVerifier : Option String
  encryptedCanonical : Option String

namespace Env

variable [JsNumber F] (E : Env F)

/-- The keys under a PIN, and under a share where there is one. -/
def sealWithPin (keysJson : String) (canonicalDescriptor : List F) (faceBytes : Bytes)
    (pin : String) (recoveryShare : Option Bytes) (draws : Draws) : SealedPart :=
  let pinBytes := E.derivePinRawBits pin draws.salt.val
  let canonicalJson := stringify (E.descriptorJson canonicalDescriptor)
  match recoveryShare with
  | some share =>
    { encryptedKeys :=
        E.encryptWithPinKey keysJson (deriveTripleKey faceBytes pinBytes share) draws.keysIv
      encryptedCanonical :=
        some (E.encryptWithPinKey canonicalJson (xorKey [pinBytes, share]) draws.canonicalIv)
      pinVersion := 3
      pinSalt := some (btoa draws.salt.val)
      pinVerifier := some (E.encryptWithPinKey "PINOK" pinBytes draws.verifierIv) }
  | none =>
    { encryptedKeys :=
        E.encryptWithPinKey keysJson (deriveCombinedKey faceBytes pinBytes) draws.keysIv
      encryptedCanonical :=
        some (E.encryptWithPinKey canonicalJson pinBytes draws.canonicalIv)
      pinVersion := 2
      pinSalt := some (btoa draws.salt.val)
      pinVerifier := some (E.encryptWithPinKey "PINOK" pinBytes draws.verifierIv) }

/-- `createEncryptedKeyBlob`; `accountId` is `keys.pub` where the caller gives none.  It throws
(`none`) on a share without a PIN and on one that has not 32 bytes. -/
def createEncryptedKeyBlob (keys : KeyPair) (username : String) (canonicalDescriptor : List F)
    (faceMapHash : String) (pin : Option String) (accountId : String)
    (recoveryShare : Option Bytes) (draws : Draws) : Option EncryptedKeyBlob :=
  if recoveryShare.any fun share => !truthy pin || share.length != 32 then none
  else
    let quantized := quantizeDescriptor canonicalDescriptor
    let faceKey := E.deriveFaceKey quantized accountId
    let keysJson := stringify keys.toJson
    let part := match pin with
      | some pin =>
        E.sealWithPin keysJson canonicalDescriptor (E.deriveFaceRawBits quantized accountId) pin
          recoveryShare draws
      | none => ⟨E.encryptWithFaceKey keysJson faceKey draws.keysIv, none, 0, none, none⟩
    some
      { encryptedKeys := part.encryptedKeys
        faceMapHash
        username
        pub := accountId
        createdAt := draws.createdAt
        updatedAt := some draws.updatedAt
        linkedAnchor := some (E.computeLinkedAnchor part.encryptedKeys faceMapHash accountId)
        pinVersion := some part.pinVersion
        pinSalt := part.pinSalt
        pinVerifier := part.pinVerifier
        encryptedCanonical := part.encryptedCanonical
        pinAttemptState := some (E.encryptAttemptState NO_ATTEMPTS faceKey draws.stateIv) }

def verifyKeyBlobHash (blob : EncryptedKeyBlob) (expectedAnchor : String) : Bool :=
  E.computeLinkedAnchor blob.encryptedKeys blob.faceMapHash blob.pub == expectedAnchor

def updateAttemptStateInBlob (blob : EncryptedKeyBlob) (faceKey : Bytes) (state : AttemptState)
    (iv : Iv) (now : Int) : EncryptedKeyBlob :=
  { blob with
    updatedAt := some now
    pinAttemptState := some (E.encryptAttemptState state faceKey iv) }

end Env

/-! ## Recovering the keys -/

structure RecoveryResult where
  keys : Value
  faceKey : Bytes
  attemptState : Value

/-- A field of the blob that is there and not empty. -/
def present (field : Option String) : Option String := field.filter (· ≠ "")

namespace Env

variable [JsNumber F] (E : Env F)

/-- `!value`. -/
def falsy : Value → Bool
  | .null => true
  | .bool b => !b
  | .int n => n == 0
  | .num text => JsNumber.same (E.readNumber text) (JsNumber.ofInt 0)
  | .str s => s == ""
  | .arr _ => false
  | .obj _ => false

/-- `!value[key]`. -/
def missing (key : String) : Value → Bool
  | .obj fields => (JsMap.find key fields).all E.falsy
  | _ => true

/-- The keys of a decrypted text, when its four fields are there. -/
def readKeys (decrypted : String) : Option Value :=
  (parse decrypted).filter fun keys =>
    !(E.missing "pub" keys || E.missing "priv" keys || E.missing "epub" keys ||
      E.missing "epriv" keys)

/-- The last steps of every version: the keys are read, and the counter with the key of the
enrolled face. -/
def finish (blob : EncryptedKeyBlob) (decrypted : Option String) (faceKey : Bytes) :
    Option (RecoveryResult) :=
  ((present decrypted).bind E.readKeys).map fun keys =>
    ⟨keys, faceKey, E.readAttemptState blob faceKey⟩

/-- The verifier, where there is one, opens to `PINOK`. -/
def pinVerified (blob : EncryptedKeyBlob) (pinKey : Bytes) : Bool :=
  (present blob.pinVerifier).all fun sealed =>
    E.decryptWithPinKey sealed pinKey == some "PINOK"

/-- What versions 2 and 3 have in common: the salt, the PIN check, the canonical descriptor
under one key, the biometric gate, and the keys under another one.  It throws on a salt that is
no base64, and is taken to throw on a canonical that is no array of numbers, which no version
writes. -/
def recoverWithPin (blob : EncryptedKeyBlob) (newDescriptor : List F) (pin : String)
    (pinSalt encryptedCanonical : String) (canonicalKey : Bytes → Bytes)
    (outerKey : Bytes → Bytes → Bytes) : Option (Option (RecoveryResult)) :=
  match atob pinSalt with
  | none => none
  | some saltBytes =>
    let pinBytes := E.derivePinRawBits pin saltBytes
    if E.pinVerified blob pinBytes then
      match (present (E.decryptWithPinKey encryptedCanonical (canonicalKey pinBytes))).bind
          parse with
      | none => some none
      | some parsed =>
        match E.descriptorOf parsed with
        | none => none
        | some storedCanonical =>
          if matchOrLog storedCanonical newDescriptor then
            let storedQuantized := quantizeDescriptor storedCanonical
            let faceBytes := E.deriveFaceRawBits storedQuantized blob.pub
            some (E.finish blob
              (E.decryptWithPinKey blob.encryptedKeys (outerKey faceBytes pinBytes))
              (E.deriveFaceKey storedQuantized blob.pub))
          else some none
    else some none

/-- Version 3. -/
def recoverCustodySplit (blob : EncryptedKeyBlob) (newDescriptor : List F) (pin : Option String)
    (recoveryShare : Option Bytes) : Option (Option (RecoveryResult)) :=
  match present pin, recoveryShare.filter fun share => share.length == 32,
      present blob.pinSalt, present blob.encryptedCanonical with
  | some pin, some share, some pinSalt, some encryptedCanonical =>
    E.recoverWithPin blob newDescriptor pin pinSalt encryptedCanonical
      (fun pinBytes => xorKey [pinBytes, share])
      (fun faceBytes pinBytes => deriveTripleKey faceBytes pinBytes share)
  | _, _, _, _ => some none

/-- Version 2. -/
def recoverCombined (blob : EncryptedKeyBlob) (newDescriptor : List F) (pin : Option String) :
    Option (Option (RecoveryResult)) :=
  match present pin, present blob.pinSalt, present blob.encryptedCanonical with
  | some pin, some pinSalt, some encryptedCanonical =>
    E.recoverWithPin blob newDescriptor pin pinSalt encryptedCanonical id deriveCombinedKey
  | _, _, _ => some none

/-- Version 1: the PIN around the face.  The face is that of the canonical where there is one,
and the live one where there is none, or none that can be read. -/
def recoverLayered (blob : EncryptedKeyBlob) (newDescriptor : List F) (pin : Option String) :
    Option (Option (RecoveryResult)) :=
  match present pin, present blob.pinSalt with
  | some pin, some pinSalt =>
    match atob pinSalt with
    | none => none
    | some saltBytes =>
      let pinKey := E.derivePinRawBits pin saltBytes
      match present (E.decryptWithPinKey blob.encryptedKeys pinKey) with
      | none => some none
      | some intermediate =>
        let canonical := (present blob.encryptedCanonical).bind fun sealed =>
          ((present (E.decryptWithPinKey sealed pinKey)).bind parse).bind E.descriptorOf
        match canonical with
        | some storedCanonical =>
          if matchOrLog storedCanonical newDescriptor then
            let faceKey := E.deriveFaceKey (quantizeDescriptor storedCanonical) blob.pub
            some (E.finish blob (E.decryptWithFaceKey intermediate faceKey) faceKey)
          else some none
        | none =>
          let faceKey := E.deriveFaceKey (quantizeDescriptor newDescriptor) blob.pub
          some (E.finish blob (E.decryptWithFaceKey intermediate faceKey) faceKey)
  | _, _ => some none

/-- `recoverKeysWithFace`: `some none` where it returns `null`, and `none` where it throws. -/
def recoverKeysWithFace (blob : EncryptedKeyBlob) (newDescriptor : List F) (pin : Option String)
    (recoveryShare : Option Bytes) : Option (Option (RecoveryResult)) :=
  if blob.pinVersion = some 3 then E.recoverCustodySplit blob newDescriptor pin recoveryShare
  else if blob.pinVersion = some 2 then E.recoverCombined blob newDescriptor pin
  else if blob.pinVersion = some 1 then E.recoverLayered blob newDescriptor pin
  else
    let faceKey := E.deriveFaceKey (quantizeDescriptor newDescriptor) blob.pub
    some (E.finish blob (E.decryptWithFaceKey blob.encryptedKeys faceKey) faceKey)

end Env

end NeuronWeb.FaceStore
