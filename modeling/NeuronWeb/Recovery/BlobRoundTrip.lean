/-
  Recovery/BlobRoundTrip: what was locked in a recovery blob comes out of it again
  (`core/face-store.ts`).

  The reader derives every key from what it has read so far: the PIN's from the salt in the
  blob, the canonical descriptor's from the PIN and the share, the outer one from the canonical
  that it has just opened. `JSON` and the quantisation stand between the descriptor that was
  enrolled and the one that the keys are derived from, and a zero loses its sign on the way.
-/
import Mathlib.Data.List.TakeWhile
import NeuronWeb.Foundation.Run
import NeuronWeb.Recovery.FaceStore
import NeuronWeb.Transparent

set_option autoImplicit false

namespace NeuronWeb.FaceStore

open CharClass JsonText RegularExpression Run

variable {F : Type}

/-! ## What the platform is taken to do -/

/-- Ideal AES-GCM and key derivation: what was sealed opens under its own key and under no
other, and no two PINs derive one key. -/
structure Env.Ideal (E : Env F) : Prop where
  decrypt_encrypt : ∀ key iv data, E.decrypt key iv (E.encrypt key iv data) = some data
  decrypt_other : ∀ key key' iv data, key' ≠ key →
    E.decrypt key' iv (E.encrypt key iv data) = none
  pin_injective : ∀ salt, Function.Injective fun pin => E.pbkdf2Sha512 pin salt

/-- The number that comes back from `JSON`: the zero that it reads has no sign. -/
def reread [JsNumber F] (x : F) : F := JsNumber.add x (JsNumber.ofInt 0)

/-- What the language says of finite numbers: the text of one is a numeral of `JSON`, which reads
as the same number, up to the sign of a zero, and neither `toFixed` nor a square depends on that
sign. -/
structure Env.FaithfulNumbers [JsNumber F] (E : Env F) : Prop where
  isNumeral_text : ∀ x, JsNumber.isFinite x = true → isNumeral (E.numberText x) = true
  readNumber_text : ∀ x, JsNumber.isFinite x = true → E.readNumber (E.numberText x) = reread x
  toFixed_reread : ∀ x : F, JsNumber.isFinite x = true →
    E.toFixed4 (quantize (reread x)) = E.toFixed4 (quantize x)
  square_reread : ∀ x y : F, JsNumber.isFinite x = true →
    JsNumber.pow (JsNumber.sub (reread x) y) (JsNumber.ofInt 2) =
      JsNumber.pow (JsNumber.sub x y) (JsNumber.ofInt 2)

/-! ## Texts under a key -/

section Texts

variable {E : Env F}

theorem present_some {s : String} (h : s ≠ "") : present (some s) = some s := by
  simp [present, Option.filter, h]

theorem sealText_ne_empty (data : String) (key : Bytes) (iv : Iv) :
    E.sealText data key iv ≠ "" := by
  refine btoa_ne_empty fun hempty => ?_
  have hiv := iv.property
  rw [(List.append_eq_nil_iff.mp hempty).1] at hiv
  cases hiv

theorem openText_eq (data : String) (key key' : Bytes) (iv : Iv) :
    E.openText (E.sealText data key iv) key' =
      (E.decrypt key' iv.val (E.encrypt key iv.val (utf8ToBytes data))).map
        (BlockArchive.textDecode E.platform) := by
  rw [Env.openText, Env.sealText, atob_btoa]
  simp only [Option.bind_eq_bind, Option.bind_some, Option.pure_def,
    List.take_left' iv.property, List.drop_left' iv.property]
  rw [Option.map_eq_bind]
  rfl

theorem Env.Ideal.openText_other (hE : E.Ideal) (data : String) {key key' : Bytes} (iv : Iv)
    (h : key' ≠ key) : E.openText (E.sealText data key iv) key' = none := by
  rw [openText_eq, hE.decrypt_other _ _ _ _ h, Option.map_none]

theorem Env.Ideal.openText_sealText (hE : E.Ideal) {data : String}
    (h : data.toList.head? ≠ some (Char.ofNat 0xFEFF)) (key : Bytes) (iv : Iv) :
    E.openText (E.sealText data key iv) key = some data := by
  rw [openText_eq, hE.decrypt_encrypt, Option.map_some, BlockArchive.textDecode_utf8ToBytes _ h]

theorem Env.Ideal.openText_stringify (hE : E.Ideal) (v : Value) (key : Bytes) (iv : Iv) :
    E.openText (E.sealText (stringify v) key iv) key = some (stringify v) := by
  refine hE.openText_sealText ?_ key iv
  obtain ⟨c, text, hrender, -, -, hmark⟩ := render_head v
  rw [stringify, String.toList_ofList, hrender, List.head?_cons]
  exact fun h => hmark (Option.some.inj h)

theorem stringify_ne_empty (v : Value) : stringify v ≠ "" := by
  intro hempty
  obtain ⟨c, text, hrender, -⟩ := render_head v
  have hchars := congrArg String.toList hempty
  rw [stringify, String.toList_ofList, hrender] at hchars
  cases hchars

end Texts

/-! ## The XOR of factors -/

theorem xorKey_pair_inj {pinBytes share share' : Bytes} (hshare : share.length = 32)
    (hshare' : share'.length = 32) (h : xorKey [pinBytes, share'] = xorKey [pinBytes, share]) :
    share' = share := by
  refine List.ext_getElem (hshare'.trans hshare.symm) fun i hi' hi => ?_
  have hat := congrArg (fun key => key[i]?) h
  have hrange : i < (List.range 32).length := by
    rw [List.length_range]
    omega
  simp only [xorKey, List.getElem?_map, List.getElem?_eq_getElem hrange, List.getElem_range,
    Option.map_some, Option.some.injEq, List.foldl_cons, List.foldl_nil,
    UInt8.xor_right_inj] at hat
  simpa [List.getD, hi, hi'] using hat

/-! ## What comes back from `JSON` -/

theorem parse_keys (keys : KeyPair) : parse (stringify keys.toJson) = some keys.toJson := by
  obtain ⟨pub, priv, epub, epriv, pqPub, pqPriv, pqKemPub, pqKemPriv⟩ := keys
  have hdistinct : DistinctKeys (KeyPair.toJson
      ⟨pub, priv, epub, epriv, pqPub, pqPriv, pqKemPub, pqKemPriv⟩) := by
    cases pqPub <;> cases pqPriv <;> cases pqKemPub <;> cases pqKemPriv <;>
      simp [KeyPair.toJson, Json.field?, DistinctKeys, DistinctFields]
  have hwritten : written (KeyPair.toJson
      ⟨pub, priv, epub, epriv, pqPub, pqPriv, pqKemPub, pqKemPriv⟩) =
      KeyPair.toJson ⟨pub, priv, epub, epriv, pqPub, pqPriv, pqKemPub, pqKemPriv⟩ := by
    cases pqPub <;> cases pqPriv <;> cases pqKemPub <;> cases pqKemPriv <;> rfl
  rw [parse_stringify hdistinct, hwritten]

theorem parse_attemptState (state : AttemptState) :
    parse (stringify state.toJson) = some state.toJson := by
  have hdistinct : DistinctKeys state.toJson := by
    simp [AttemptState.toJson, DistinctKeys, DistinctFields]
  rw [parse_stringify hdistinct]
  simp only [AttemptState.toJson, written, writtenFields, isNumeral_toString, if_true]


section Descriptor

variable [JsNumber F] {E : Env F} {descriptor : List F}

theorem parse_descriptor (hN : E.FaithfulNumbers)
    (hfinite : ∀ x ∈ descriptor, JsNumber.isFinite x = true) :
    (parse (stringify (E.descriptorJson descriptor))).bind E.descriptorOf =
      some (descriptor.map reread) := by
  have hread : ∀ d : List F, (∀ x ∈ d, JsNumber.isFinite x = true) →
      DistinctItems (d.map fun x => .num (E.numberText x)) ∧
        (writtenItems (d.map fun x => .num (E.numberText x))).mapM E.numberOf =
          some (d.map reread) := by
    intro d
    induction d with
    | nil => intro hd; exact ⟨trivial, rfl⟩
    | cons x rest ih =>
      intro hd
      have hx := hd x List.mem_cons_self
      obtain ⟨hdistinct, hrest⟩ := ih fun y hy => hd y (List.mem_cons_of_mem x hy)
      refine ⟨⟨trivial, hdistinct⟩, ?_⟩
      simp only [List.map_cons, writtenItems, written, hN.isNumeral_text x hx, if_true,
        List.mapM_cons, Env.numberOf, hN.readNumber_text x hx, hrest]
      rfl
  obtain ⟨hdistinct, hnumbers⟩ := hread descriptor hfinite
  have hkeys : DistinctKeys (E.descriptorJson descriptor) := hdistinct
  rw [parse_stringify hkeys, Option.bind_some, Env.descriptorJson, written, Env.descriptorOf,
    hnumbers]

theorem compareFaces_reread (hN : E.FaithfulNumbers)
    (hfinite : ∀ x ∈ descriptor, JsNumber.isFinite x = true) (live : List F) :
    compareFaces (descriptor.map reread) live = compareFaces descriptor live := by
  have hsum : ∀ (pairs : List (F × F)) (sum : F),
      (∀ e ∈ pairs, JsNumber.isFinite e.1 = true) →
      (pairs.map (Prod.map reread id)).foldl addSquare sum = pairs.foldl addSquare sum := by
    intro pairs
    induction pairs with
    | nil => intro sum hpairs; rfl
    | cons e rest ih =>
      intro sum hpairs
      have hfirst : addSquare sum (Prod.map reread id e) = addSquare sum e := by
        simp only [addSquare, Prod.map_fst, Prod.map_snd, id_eq,
          hN.square_reread _ _ (hpairs e List.mem_cons_self)]
      rw [List.map_cons, List.foldl_cons, List.foldl_cons, hfirst]
      exact ih _ fun e' he' => hpairs e' (List.mem_cons_of_mem e he')
  have hpairs : ∀ e ∈ (descriptor.zip live).take 128, JsNumber.isFinite e.1 = true := by
    intro e he
    exact hfinite e.1 (List.of_mem_zip (List.mem_of_mem_take he)).1
  have hdistance : faceDistance (descriptor.map reread) live = faceDistance descriptor live := by
    rw [faceDistance, faceDistance, List.length_map, List.zip_map_left, ← List.map_take,
      hsum _ _ hpairs]
  rw [compareFaces, compareFaces, hdistance]

theorem deriveFaceRawBits_reread (hN : E.FaithfulNumbers)
    (hfinite : ∀ x ∈ descriptor, JsNumber.isFinite x = true) (accountPub : String) :
    E.deriveFaceRawBits (quantizeDescriptor (descriptor.map reread)) accountPub =
      E.deriveFaceRawBits (quantizeDescriptor descriptor) accountPub := by
  have htexts : (quantizeDescriptor (descriptor.map reread)).map E.toFixed4 =
      (quantizeDescriptor descriptor).map E.toFixed4 := by
    simp only [quantizeDescriptor, List.map_map]
    exact List.map_congr_left fun x hx => hN.toFixed_reread x (hfinite x hx)
  rw [Env.deriveFaceRawBits, Env.deriveFaceRawBits, htexts]

end Descriptor

/-! ## Enrolling -/

/-- What an account is enrolled with, and the random bytes that the call draws. -/
structure Enrollment (F : Type) [JsNumber F] where
  keys : KeyPair
  username : String
  canonicalDescriptor : List F
  faceMapHash : String
  accountId : String
  draws : Draws
  keys_present : keys.pub ≠ "" ∧ keys.priv ≠ "" ∧ keys.epub ≠ "" ∧ keys.epriv ≠ ""
  finite : ∀ x ∈ canonicalDescriptor, JsNumber.isFinite x = true

/-- The factors beside the face. -/
inductive Factors where
  | face
  | facePin (pin : String) (pin_present : pin ≠ "")
  | custodySplit (pin : String) (share : Bytes) (pin_present : pin ≠ "")
      (share_length : share.length = 32)

namespace Factors

def pin : Factors → Option String
  | face => none
  | facePin pin _ => some pin
  | custodySplit pin _ _ _ => some pin

def share : Factors → Option Bytes
  | face => none
  | facePin _ _ => none
  | custodySplit _ share _ _ => some share

def version : Factors → Nat
  | face => 0
  | facePin _ _ => 2
  | custodySplit _ _ _ _ => 3

theorem not_rejected (f : Factors) :
    (f.share.any fun share => !truthy f.pin || share.length != 32) = false := by
  cases f with
  | face => rfl
  | facePin pin hpin => rfl
  | custodySplit pin share hpin hshare => simp [Factors.share, Factors.pin, truthy, hpin, hshare]

variable [JsNumber F]

/-- The live faces that unlock a blob: those within the threshold, and for a blob that is locked
with the face alone, those in the same bins. -/
def Accepts (canonical live : List F) : Factors → Prop
  | face => quantizeDescriptor live = quantizeDescriptor canonical
  | facePin _ _ => compareFaces canonical live = true
  | custodySplit _ _ _ _ => compareFaces canonical live = true

/-- A wrong PIN, or a wrong share. -/
def Wrong (pin' : Option String) (share' : Option Bytes) : Factors → Prop
  | face => False
  | facePin pin _ => pin' ≠ some pin
  | custodySplit pin share _ _ => pin' ≠ some pin ∨ share' ≠ some share

end Factors

/-- An update of the attempt counter, with the IV that it draws and the time. -/
structure AttemptUpdate where
  state : AttemptState
  iv : Iv
  now : Int

/-- The last attempt state that was written. -/
def lastState (updates : List AttemptUpdate) : AttemptState :=
  (updates.getLast?.map AttemptUpdate.state).getD NO_ATTEMPTS

theorem lastState_concat (updates : List AttemptUpdate) (u : AttemptUpdate) :
    lastState (updates ++ [u]) = u.state := by
  rw [lastState, List.getLast?_concat, Option.map_some, Option.getD_some]

namespace Env

variable [JsNumber F] (E : Env F) (e : Enrollment F)

def enroll (f : Factors) : Option EncryptedKeyBlob :=
  E.createEncryptedKeyBlob e.keys e.username e.canonicalDescriptor e.faceMapHash f.pin e.accountId
    f.share e.draws

def update (faceKey : Bytes) (blob : EncryptedKeyBlob) (u : AttemptUpdate) : EncryptedKeyBlob :=
  E.updateAttemptStateInBlob blob faceKey u.state u.iv u.now

/-- The key of the enrolled face, which is also its factor. -/
def enrolledFace : Bytes :=
  E.deriveFaceRawBits (quantizeDescriptor e.canonicalDescriptor) e.accountId

def enrolledPin (pin : String) : Bytes := E.derivePinRawBits pin e.draws.salt.val

/-- The canonical descriptor under a key. -/
def sealedCanonical (key : Bytes) : String :=
  E.encryptWithPinKey (stringify (E.descriptorJson e.canonicalDescriptor)) key e.draws.canonicalIv

/-- The part of the blob that the version decides. -/
def enrolledPart : Factors → SealedPart
  | .face =>
    ⟨E.encryptWithFaceKey (stringify e.keys.toJson) (E.enrolledFace e) e.draws.keysIv, none, 0,
      none, none⟩
  | .facePin pin _ =>
    E.sealWithPin (stringify e.keys.toJson) e.canonicalDescriptor (E.enrolledFace e) pin none
      e.draws
  | .custodySplit pin share _ _ =>
    E.sealWithPin (stringify e.keys.toJson) e.canonicalDescriptor (E.enrolledFace e) pin
      (some share) e.draws

/-- What a blob carries over the updates: all that the enrollment has sealed, and the last
attempt state under the key of the enrolled face. -/
structure Carries (f : Factors) (blob : EncryptedKeyBlob) (state : AttemptState) : Prop where
  encryptedKeys : blob.encryptedKeys = (E.enrolledPart e f).encryptedKeys
  pinSalt : blob.pinSalt = (E.enrolledPart e f).pinSalt
  pinVersion : blob.pinVersion = some f.version
  pinVerifier : blob.pinVerifier = (E.enrolledPart e f).pinVerifier
  encryptedCanonical : blob.encryptedCanonical = (E.enrolledPart e f).encryptedCanonical
  faceMapHash : blob.faceMapHash = e.faceMapHash
  pub : blob.pub = e.accountId
  counter : ∃ iv, blob.pinAttemptState =
    some (E.encryptAttemptState state (E.enrolledFace e) iv)

end Env

section Enrolling

variable [JsNumber F] {E : Env F} {e : Enrollment F} {f : Factors}

/-- The anchor of an enrollment. -/
def Env.enrolledAnchor (E : Env F) (e : Enrollment F) (f : Factors) : String :=
  E.computeLinkedAnchor (E.enrolledPart e f).encryptedKeys e.faceMapHash e.accountId

theorem exists_enroll (E : Env F) (e : Enrollment F) (f : Factors) :
    ∃ blob, E.enroll e f = some blob ∧ blob.linkedAnchor = some (E.enrolledAnchor e f) ∧
      E.Carries e f blob NO_ATTEMPTS := by
  have hguard := f.not_rejected
  simp only [Env.enroll, Env.createEncryptedKeyBlob, hguard, Bool.false_eq_true, if_false]
  cases f with
  | face => exact ⟨_, rfl, rfl, rfl, rfl, rfl, rfl, rfl, rfl, rfl, e.draws.stateIv, rfl⟩
  | facePin pin hpin =>
    exact ⟨_, rfl, rfl, rfl, rfl, rfl, rfl, rfl, rfl, rfl, e.draws.stateIv, rfl⟩
  | custodySplit pin share hpin hshare =>
    exact ⟨_, rfl, rfl, rfl, rfl, rfl, rfl, rfl, rfl, rfl, e.draws.stateIv, rfl⟩

variable {blob : EncryptedKeyBlob}

/-- The three are all that a call can write: one that returns has such factors, unless its PIN
is the empty one, which unlocks nothing. -/
theorem exists_factors {keys : KeyPair} {username : String} {canonicalDescriptor : List F}
    {faceMapHash : String} {pin : Option String} {accountId : String} {share : Option Bytes}
    {draws : Draws}
    (h : E.createEncryptedKeyBlob keys username canonicalDescriptor faceMapHash pin accountId
      share draws = some blob) (hpin : pin ≠ some "") :
    ∃ f : Factors, f.pin = pin ∧ f.share = share := by
  have hguard : ¬ (share.any fun share => !truthy pin || share.length != 32) = true := by
    intro hguard
    rw [Env.createEncryptedKeyBlob, if_pos hguard] at h
    cases h
  cases pin with
  | none =>
    cases share with
    | none => exact ⟨.face, rfl, rfl⟩
    | some share => exact absurd rfl hguard
  | some pin =>
    have hpresent : pin ≠ "" := fun hempty => hpin (congrArg some hempty)
    cases share with
    | none => exact ⟨.facePin pin hpresent, rfl, rfl⟩
    | some share =>
      have hlength : share.length = 32 := by
        by_contra hlength
        exact hguard (by simp [hlength])
      exact ⟨.custodySplit pin share hpresent hlength, rfl, rfl⟩

theorem Env.Carries.update {state : AttemptState}
    (h : E.Carries e f blob state) (u : AttemptUpdate) :
    E.Carries e f (E.update (E.enrolledFace e) blob u) u.state where
  encryptedKeys := h.encryptedKeys
  pinSalt := h.pinSalt
  pinVersion := h.pinVersion
  pinVerifier := h.pinVerifier
  encryptedCanonical := h.encryptedCanonical
  faceMapHash := h.faceMapHash
  pub := h.pub
  counter := ⟨u.iv, rfl⟩

theorem Env.Carries.final (h : E.Carries e f blob NO_ATTEMPTS) (updates : List AttemptUpdate) :
    E.Carries e f (Run.final (E.update (E.enrolledFace e)) blob updates) (lastState updates) := by
  induction updates using List.reverseRecOn with
  | nil => exact h
  | append_singleton updates u ih =>
    rw [final_append, final_cons, final_nil, lastState_concat]
    exact ih.update u

theorem Env.Carries.verifyKeyBlobHash {state : AttemptState}
    (h : E.Carries e f blob state) : E.verifyKeyBlobHash blob (E.enrolledAnchor e f) = true := by
  rw [Env.verifyKeyBlobHash, h.encryptedKeys, h.faceMapHash, h.pub]
  exact beq_self_eq_true _

end Enrolling

/-! ## Recovering -/

section Recovering

variable [JsNumber F] {E : Env F} {e : Enrollment F} {f : Factors} {blob : EncryptedKeyBlob}
  {state : AttemptState}

theorem Env.Carries.readAttemptState (hE : E.Ideal) (h : E.Carries e f blob state) :
    E.readAttemptState blob (E.enrolledFace e) = state.toJson := by
  obtain ⟨iv, hcounter⟩ := h.counter
  have hsealed : E.encryptAttemptState state (E.enrolledFace e) iv ≠ "" :=
    sealText_ne_empty _ _ _
  have hopen : E.decryptAttemptState (E.encryptAttemptState state (E.enrolledFace e) iv)
      (E.enrolledFace e) = some state.toJson := by
    simp only [Env.decryptAttemptState, Env.encryptAttemptState, Env.encryptWithFaceKey,
      Env.decryptWithFaceKey, hE.openText_stringify, parse_attemptState,
      if_neg (stringify_ne_empty _)]
    rfl
  simp only [Env.readAttemptState, hcounter, if_neg hsealed, hopen, Option.getD_some]

theorem readKeys_stringify (E : Env F) (e : Enrollment F) :
    E.readKeys (stringify e.keys.toJson) = some e.keys.toJson := by
  obtain ⟨hpub, hpriv, hepub, hepriv⟩ := e.keys_present
  have hfound : ∀ value : String, value ≠ "" → E.falsy (.str value) = false :=
    fun value hvalue => beq_eq_false_iff_ne.mpr hvalue
  rw [Env.readKeys, parse_keys, Option.filter_some, if_pos]
  simp [KeyPair.toJson, Env.missing, JsMap.find, hfound, hpub, hpriv, hepub, hepriv]

theorem Env.Carries.finish (hE : E.Ideal) (h : E.Carries e f blob state) :
    E.finish blob (some (stringify e.keys.toJson)) (E.enrolledFace e) =
      some ⟨e.keys.toJson, E.enrolledFace e, state.toJson⟩ := by
  rw [Env.finish, present_some (stringify_ne_empty _), Option.bind_some, readKeys_stringify,
    Option.map_some, h.readAttemptState hE]

variable {pin : String}

/-- A blob with a verifier under the enrolled PIN. -/
def Env.HasVerifier (E : Env F) (e : Enrollment F) (blob : EncryptedKeyBlob) (pin : String) :
    Prop :=
  blob.pinVerifier = some (E.encryptWithPinKey "PINOK" (E.enrolledPin e pin) e.draws.verifierIv)

theorem Env.HasVerifier.pinVerified_iff (hE : E.Ideal)
    (h : E.HasVerifier e blob pin) (pin' : String) :
    E.pinVerified blob (E.derivePinRawBits pin' e.draws.salt.val) = true ↔ pin' = pin := by
  have hsealed : E.encryptWithPinKey "PINOK" (E.enrolledPin e pin) e.draws.verifierIv ≠ "" :=
    sealText_ne_empty _ _ _
  rw [Env.pinVerified, h, present_some hsealed, Option.all_some, beq_iff_eq]
  constructor
  · intro hopens
    by_contra hne
    have hkey : E.derivePinRawBits pin' e.draws.salt.val ≠ E.enrolledPin e pin :=
      fun hkey => hne (utf8ToBytes_injective (hE.pin_injective _ hkey))
    rw [Env.decryptWithPinKey, Env.encryptWithPinKey, hE.openText_other _ _ hkey] at hopens
    cases hopens
  · rintro rfl
    exact hE.openText_sealText (by decide) _ _

/-- With the enrolled PIN, and the key of the canonical: it is opened, the live face is
compared with it, and what it derives opens the keys. -/
theorem Env.Carries.recoverWithPin (hE : E.Ideal) (hN : E.FaithfulNumbers)
    (h : E.Carries e f blob state) (hverifier : E.HasVerifier e blob pin)
    (canonicalKey : Bytes → Bytes) (outerKey : Bytes → Bytes → Bytes)
    (hkeys : blob.encryptedKeys = E.sealText (stringify e.keys.toJson)
      (outerKey (E.enrolledFace e) (E.enrolledPin e pin)) e.draws.keysIv)
    {live : List F} (hlive : compareFaces e.canonicalDescriptor live = true) :
    E.recoverWithPin blob live pin (btoa e.draws.salt.val)
        (E.sealedCanonical e (canonicalKey (E.enrolledPin e pin))) canonicalKey outerKey =
      some (some ⟨e.keys.toJson, E.enrolledFace e, state.toJson⟩) := by
  have hpin := (hverifier.pinVerified_iff hE pin).mpr rfl
  obtain ⟨parsed, hparsed, hdescriptor⟩ :=
    Option.bind_eq_some_iff.mp (parse_descriptor hN e.finite)
  have hopen : E.decryptWithPinKey
      (E.sealedCanonical e (canonicalKey (E.enrolledPin e pin)))
      (canonicalKey (E.enrolledPin e pin)) =
      some (stringify (E.descriptorJson e.canonicalDescriptor)) :=
    hE.openText_stringify _ _ _
  have hface : E.deriveFaceRawBits
      (quantizeDescriptor (e.canonicalDescriptor.map reread)) blob.pub = E.enrolledFace e := by
    rw [deriveFaceRawBits_reread hN e.finite, h.pub]
    rfl
  have hgate : matchOrLog (e.canonicalDescriptor.map reread) live = true := by
    rw [matchOrLog, compareFaces_reread hN e.finite, hlive]
  have hopened : E.decryptWithPinKey blob.encryptedKeys
      (outerKey (E.enrolledFace e) (E.enrolledPin e pin)) =
      some (stringify e.keys.toJson) := by
    rw [hkeys]
    exact hE.openText_stringify _ _ _
  rw [Env.enrolledPin] at hopen hopened ⊢
  simp only [Env.recoverWithPin, atob_btoa, hpin, if_true, hopen,
    present_some (stringify_ne_empty _), Option.bind_some, hparsed, hdescriptor, hgate,
    Env.deriveFaceKey, hface, hopened, h.finish hE]

/-- With another PIN the verifier does not open, and with another key the canonical does not. -/
theorem Env.HasVerifier.recoverWithPin_other (hE : E.Ideal)
    (hverifier : E.HasVerifier e blob pin) (canonicalKey : Bytes → Bytes)
    (outerKey : Bytes → Bytes → Bytes) {key : Bytes} {pin' : String}
    (hother : pin' = pin → canonicalKey (E.enrolledPin e pin) ≠ key) (live : List F) :
    E.recoverWithPin blob live pin' (btoa e.draws.salt.val) (E.sealedCanonical e key)
      canonicalKey outerKey = some none := by
  by_cases hpin : pin' = pin
  · subst hpin
    have hverified := (hverifier.pinVerified_iff hE pin').mpr rfl
    have hshut : E.decryptWithPinKey (E.sealedCanonical e key)
        (canonicalKey (E.derivePinRawBits pin' e.draws.salt.val)) = none :=
      hE.openText_other _ _ (hother rfl)
    simp only [Env.recoverWithPin, atob_btoa, hverified, if_true, hshut]
    rfl
  · have hverified : ¬ E.pinVerified blob (E.derivePinRawBits pin' e.draws.salt.val) = true :=
      fun hverified => hpin ((hverifier.pinVerified_iff hE pin').mp hverified)
    simp only [Env.recoverWithPin, atob_btoa, if_neg hverified]

theorem present_btoa_salt (e : Enrollment F) :
    present (some (btoa e.draws.salt.val)) = some (btoa e.draws.salt.val) := by
  refine present_some (btoa_ne_empty fun hempty => ?_)
  have hsalt := e.draws.salt.property
  rw [hempty] at hsalt
  cases hsalt

variable {hpin : pin ≠ ""} {share : Bytes} {hshare : share.length = 32}

theorem Env.Carries.recover_facePin (h : E.Carries e (.facePin pin hpin) blob state)
    {pin' : String} (hpin' : pin' ≠ "") (live : List F) (share' : Option Bytes) :
    E.recoverKeysWithFace blob live (some pin') share' =
      E.recoverWithPin blob live pin' (btoa e.draws.salt.val)
        (E.sealedCanonical e (E.enrolledPin e pin)) id deriveCombinedKey := by
  have hsalt : blob.pinSalt = some (btoa e.draws.salt.val) := h.pinSalt
  have hcanonical : blob.encryptedCanonical =
      some (E.sealedCanonical e (E.enrolledPin e pin)) := h.encryptedCanonical
  have hsealed : E.sealedCanonical e (E.enrolledPin e pin) ≠ "" := sealText_ne_empty _ _ _
  rw [Env.recoverKeysWithFace, h.pinVersion, Factors.version, if_neg (by decide), if_pos rfl,
    Env.recoverCombined, present_some hpin', hsalt, present_btoa_salt, hcanonical,
    present_some hsealed]

theorem Env.Carries.recover_custodySplit
    (h : E.Carries e (.custodySplit pin share hpin hshare) blob state) {pin' : String}
    (hpin' : pin' ≠ "") {share' : Bytes} (hshare' : share'.length = 32) (live : List F) :
    E.recoverKeysWithFace blob live (some pin') (some share') =
      E.recoverWithPin blob live pin' (btoa e.draws.salt.val)
        (E.sealedCanonical e (xorKey [E.enrolledPin e pin, share]))
        (fun pinBytes => xorKey [pinBytes, share'])
        (fun faceBytes pinBytes => deriveTripleKey faceBytes pinBytes share') := by
  have hsalt : blob.pinSalt = some (btoa e.draws.salt.val) := h.pinSalt
  have hcanonical : blob.encryptedCanonical =
      some (E.sealedCanonical e (xorKey [E.enrolledPin e pin, share])) := h.encryptedCanonical
  have hsealed : E.sealedCanonical e (xorKey [E.enrolledPin e pin, share]) ≠ "" :=
    sealText_ne_empty _ _ _
  rw [Env.recoverKeysWithFace, h.pinVersion, Factors.version, if_pos rfl,
    Env.recoverCustodySplit, present_some hpin', hsalt, present_btoa_salt, hcanonical,
    present_some hsealed, Option.filter_some, if_pos (by rw [hshare']; rfl)]

theorem Env.Carries.recovers (hE : E.Ideal) (hN : E.FaithfulNumbers) (h : E.Carries e f blob state)
    {live : List F} (hlive : f.Accepts e.canonicalDescriptor live) :
    E.recoverKeysWithFace blob live f.pin f.share =
      some (some ⟨e.keys.toJson, E.enrolledFace e, state.toJson⟩) := by
  cases f with
  | face =>
    have hbins : quantizeDescriptor live = quantizeDescriptor e.canonicalDescriptor := hlive
    have hkey : E.deriveFaceKey (quantizeDescriptor live) blob.pub = E.enrolledFace e := by
      rw [h.pub, hbins]
      rfl
    have hopened : E.decryptWithFaceKey blob.encryptedKeys (E.enrolledFace e) =
        some (stringify e.keys.toJson) := by
      rw [h.encryptedKeys]
      exact hE.openText_stringify _ _ _
    rw [Env.recoverKeysWithFace, h.pinVersion, Factors.version, if_neg (by decide),
      if_neg (by decide), if_neg (by decide), hkey]
    simp only [hopened, h.finish hE]
  | facePin pin hpin =>
    have hverifier : E.HasVerifier e blob pin := h.pinVerifier
    rw [Factors.pin, h.recover_facePin hpin]
    exact h.recoverWithPin hE hN hverifier id deriveCombinedKey h.encryptedKeys hlive
  | custodySplit pin share hpin hshare =>
    have hverifier : E.HasVerifier e blob pin := h.pinVerifier
    rw [Factors.pin, Factors.share, h.recover_custodySplit hpin hshare]
    exact h.recoverWithPin hE hN hverifier (fun pinBytes => xorKey [pinBytes, share])
      (fun faceBytes pinBytes => deriveTripleKey faceBytes pinBytes share) h.encryptedKeys hlive

/-- With a wrong PIN or a wrong share it gives back nothing. -/
theorem Env.Carries.refuses (hE : E.Ideal) (h : E.Carries e f blob state)
    {pin' : Option String} {share' : Option Bytes} (hwrong : f.Wrong pin' share')
    (live : List F) : E.recoverKeysWithFace blob live pin' share' = some none := by
  cases f with
  | face => exact hwrong.elim
  | facePin pin hpin =>
    have hverifier : E.HasVerifier e blob pin := h.pinVerifier
    cases hgiven : present pin' with
    | none =>
      rw [Env.recoverKeysWithFace, h.pinVersion, Factors.version, if_neg (by decide),
        if_pos rfl, Env.recoverCombined, hgiven]
    | some text =>
      obtain ⟨rfl, htext⟩ := Option.filter_eq_some_iff.mp hgiven
      have hother : text ≠ pin := fun hsame => hwrong (congrArg some hsame)
      rw [h.recover_facePin (of_decide_eq_true htext)]
      exact hverifier.recoverWithPin_other hE id deriveCombinedKey
        (fun hsame => absurd hsame hother) live
  | custodySplit pin share hpin hshare =>
    have hverifier : E.HasVerifier e blob pin := h.pinVerifier
    cases hgiven : present pin' with
    | none =>
      rw [Env.recoverKeysWithFace, h.pinVersion, Factors.version, if_pos rfl,
        Env.recoverCustodySplit, hgiven]
    | some text =>
      obtain ⟨rfl, htext⟩ := Option.filter_eq_some_iff.mp hgiven
      cases hshort : share'.filter fun share => share.length == 32 with
      | none =>
        rw [Env.recoverKeysWithFace, h.pinVersion, Factors.version, if_pos rfl,
          Env.recoverCustodySplit, hgiven, hshort]
      | some given =>
        obtain ⟨rfl, hlength⟩ := Option.filter_eq_some_iff.mp hshort
        have hgivenLength : given.length = 32 := eq_of_beq hlength
        rw [h.recover_custodySplit (of_decide_eq_true htext) hgivenLength]
        refine hverifier.recoverWithPin_other hE (fun pinBytes => xorKey [pinBytes, given])
          (fun faceBytes pinBytes => deriveTripleKey faceBytes pinBytes given) ?_ live
        -- With the right PIN it is the share that is wrong, and it gives another key.
        intro hsame hkey
        have hshare' := xorKey_pair_inj hshare hgivenLength hkey
        rcases hwrong with hwrong | hwrong
        · exact hwrong (congrArg some hsame)
        · exact hwrong (congrArg some hshare')

end Recovering

/-- Over any sequence of updates of the attempt state, a blob gives back the keys and the last
state to every face that it accepts, always with the one face key that the updates are made
with, stays under its anchor, and gives nothing back for a wrong PIN or a wrong share. -/
theorem recovery_round_trip [JsNumber F] (E : Env F) (hE : E.Ideal) (hN : E.FaithfulNumbers)
    (e : Enrollment F) (f : Factors) :
    ∃ blob anchor faceKey, E.enroll e f = some blob ∧ blob.pinVersion = some f.version ∧
      blob.linkedAnchor = some anchor ∧ ∀ updates : List AttemptUpdate,
        (∀ live, f.Accepts e.canonicalDescriptor live →
          E.recoverKeysWithFace (final (E.update faceKey) blob updates) live f.pin f.share =
            some (some ⟨e.keys.toJson, faceKey, (lastState updates).toJson⟩)) ∧
        E.verifyKeyBlobHash (final (E.update faceKey) blob updates) anchor = true ∧
        ∀ live pin share, f.Wrong pin share →
          E.recoverKeysWithFace (final (E.update faceKey) blob updates) live pin share =
            some none := by
  obtain ⟨blob, hblob, hanchor, hcarries⟩ := exists_enroll E e f
  refine ⟨blob, E.enrolledAnchor e f, E.enrolledFace e, hblob, hcarries.pinVersion, hanchor,
    fun updates => ?_⟩
  have hkept := hcarries.final updates
  refine ⟨?_, hkept.verifyKeyBlobHash, ?_⟩
  · intro live hlive
    exact hkept.recovers hE hN hlive
  · intro live pin share hwrong
    exact hkept.refuses hE hwrong live

/-! ## A blob under a PIN and a share -/

namespace SampleBlob

/-- A number as its numerator, with a denominator behind it unless it is whole. -/
def numberText (x : Rat) : String :=
  toString x.num ++ if x.den = 1 then "" else "." ++ toString (x.den : Int)

def readNumber (text : String) : Rat :=
  let num := (BlockArchive.readBigInt (String.ofList (text.toList.takeWhile (· ≠ '.')))).getD 0
  match text.toList.dropWhile (· ≠ '.') with
  | [] => num
  | _ :: den => num / (BlockArchive.readBigInt (String.ofList den)).getD 0

theorem dot_not_mem (n : Int) : ∀ c ∈ (toString n).toList, c ≠ '.' := by
  have hdigit : ∀ c ∈ DIGIT, c ≠ '.' := forall_mem_of_all (by decide)
  intro c hc
  cases n with
  | ofNat n =>
    rw [toList_toString_ofNat] at hc
    exact hdigit c (BlockArchive.mem_toDigits hc)
  | negSucc n =>
    rw [toList_toString_negSucc] at hc
    rcases List.mem_cons.mp hc with rfl | hc
    · decide
    · exact hdigit c (BlockArchive.mem_toDigits hc)

theorem toList_numberText (x : Rat) : (numberText x).toList =
    (toString x.num).toList ++ if x.den = 1 then [] else '.' :: Nat.toDigits 10 x.den := by
  rw [numberText, String.toList_append]
  split
  · rfl
  · rw [String.toList_append, ← Int.ofNat_eq_natCast, toList_toString_ofNat]
    rfl

theorem isNumeral_numberText (x : Rat) : isNumeral (numberText x) = true := by
  rw [isNumeral, toList_numberText, NUMERAL, mul_rmatch_iff]
  refine ⟨_, [], (List.append_nil _).symm, ?_, optional_rmatch_nil _⟩
  rw [mul_rmatch_iff]
  refine ⟨_, _, rfl, signed_toString x.num, ?_⟩
  split
  · exact optional_rmatch_nil _
  · cases hdigits : Nat.toDigits 10 x.den with
    | nil => exact absurd hdigits Nat.toDigits_ne_nil
    | cons d rest =>
      have hall : ∀ c ∈ d :: rest, c ∈ DIGIT := by
        intro c hc
        rw [← hdigits] at hc
        exact BlockArchive.mem_toDigits hc
      rw [optional_rmatch_iff, mul_rmatch_iff]
      refine .inr ⟨['.'], d :: rest, rfl, by decide, ?_⟩
      rw [mul_rmatch_iff]
      refine ⟨[d], rest, rfl, ?_, ?_⟩
      · exact (oneOf_rmatch_iff _ _).mpr ⟨d, hall d List.mem_cons_self, rfl⟩
      · exact (star_oneOf_rmatch_iff _ _).mpr fun c hc => hall c (List.mem_cons_of_mem d hc)

theorem readNumber_numberText (x : Rat) : readNumber (numberText x) = x := by
  have hplain : ∀ c ∈ (toString x.num).toList, decide (c ≠ '.') = true :=
    fun c hc => decide_eq_true (dot_not_mem x.num c hc)
  by_cases hwhole : x.den = 1
  · have hchars : (numberText x).toList = (toString x.num).toList := by
      rw [toList_numberText, if_pos hwhole, List.append_nil]
    rw [readNumber, hchars, List.dropWhile_eq_nil_iff.mpr hplain,
      List.takeWhile_eq_self_iff.mpr hplain, String.ofList_toList,
      BlockArchive.readBigInt_toString]
    exact Rat.coe_int_num_of_den_eq_one hwhole
  · have hden : BlockArchive.readBigInt (String.ofList (Nat.toDigits 10 x.den)) =
        some (x.den : Int) := by
      rw [← toList_toString_ofNat, String.ofList_toList]
      exact BlockArchive.readBigInt_toString (Int.ofNat x.den)
    rw [readNumber, toList_numberText, if_neg hwhole, List.takeWhile_append_of_pos hplain,
      List.dropWhile_append_of_pos hplain, List.takeWhile_cons_of_neg (by decide),
      List.dropWhile_cons_of_neg (by decide), List.append_nil, String.ofList_toList,
      BlockArchive.readBigInt_toString]
    simp only [hden, Option.getD_some, Int.cast_natCast]
    exact Rat.num_div_den x

/-- A key behind its length. -/
def lock (key : Bytes) : Bytes := Sample.natCode key.length ++ key

theorem lock_inj {key key' data data' : Bytes} (h : lock key ++ data = lock key' ++ data') :
    key = key' := by
  rw [lock, lock, List.append_assoc, List.append_assoc] at h
  obtain ⟨hlength, hrest⟩ := Sample.natCode_inj h
  exact (List.append_inj hrest hlength).1

/-- Key derivations that lose nothing, and a cipher that puts the key before the data. -/
def env : Env Rat where
  pbkdf2Sha256 password salt := password ++ salt
  pbkdf2Sha512 password _ := password
  encrypt key _ data := lock key ++ data
  decrypt key _ sealed :=
    if (lock key).isPrefixOf sealed then some (sealed.drop (lock key).length) else none
  sha256 data := 0 :: data
  platform := ⟨fun _ => "", BlockArchive.readBigInt⟩
  numberText := numberText
  readNumber := readNumber
  toFixed4 := numberText

theorem ideal_env : env.Ideal where
  decrypt_encrypt key iv data := by
    have hfront : (lock key).isPrefixOf (lock key ++ data) = true :=
      List.isPrefixOf_iff_prefix.mpr (List.prefix_append _ _)
    simp only [env, hfront, if_true, List.drop_left]
  decrypt_other key key' iv data hother := by
    refine if_neg fun hfront => ?_
    obtain ⟨rest, hrest⟩ := List.isPrefixOf_iff_prefix.mp hfront
    exact hother (lock_inj hrest)
  pin_injective salt := fun _ _ h => h

theorem faithfulNumbers_env : env.FaithfulNumbers := by
  have hreread : ∀ x : Rat, reread x = x := fun x => add_zero x
  exact ⟨fun x _ => isNumeral_numberText x,
    fun x _ => (readNumber_numberText x).trans (hreread x).symm,
    fun x _ => by rw [hreread], fun x y _ => by rw [hreread]⟩

def keys : KeyPair := ⟨"pub", "priv", "epub", "epriv", none, none, none, none⟩

theorem keys_present :
    keys.pub ≠ "" ∧ keys.priv ≠ "" ∧ keys.epub ≠ "" ∧ keys.epriv ≠ "" := by decide

def iv : Iv := ⟨List.replicate 12 1, List.length_replicate⟩

def draws : Draws := ⟨⟨List.replicate 32 2, List.length_replicate⟩, iv, iv, iv, iv, 1, 1⟩

/-- A face along one axis. -/
def enrollment : Enrollment Rat where
  keys := keys
  username := "alice"
  canonicalDescriptor := 1 :: List.replicate 127 0
  faceMapHash := "hash"
  accountId := "account"
  draws := draws
  keys_present := keys_present
  finite _ _ := rfl

theorem pin_present : "1234" ≠ "" := by decide

def share : Bytes := List.replicate 32 3

def factors : Factors := .custodySplit "1234" share pin_present List.length_replicate

/-- The face again, as a scan measures it. -/
def liveFace : List Rat := 1 :: List.replicate 127 0

theorem liveFace_accepted : factors.Accepts enrollment.canonicalDescriptor liveFace := by
  show compareFaces enrollment.canonicalDescriptor liveFace = true
  decide +kernel

end SampleBlob

open SampleBlob in
/-- With three wrong PINs counted, the face, the PIN and the share still give back the keys and
the count; another PIN or another share gives nothing. -/
theorem enrollment_recovered : ∃ blob faceKey, env.enroll enrollment factors = some blob ∧
    env.recoverKeysWithFace (final (env.update faceKey) blob [⟨⟨3, 60⟩, iv, 2⟩]) liveFace
        (some "1234") (some share) =
      some (some ⟨keys.toJson, faceKey, AttemptState.toJson ⟨3, 60⟩⟩) ∧
    env.recoverKeysWithFace (final (env.update faceKey) blob [⟨⟨3, 60⟩, iv, 2⟩]) liveFace
        (some "4321") (some share) = some none ∧
    env.recoverKeysWithFace (final (env.update faceKey) blob [⟨⟨3, 60⟩, iv, 2⟩]) liveFace
        (some "1234") (some (List.replicate 32 4)) = some none := by
  obtain ⟨blob, anchor, faceKey, hblob, -, -, hupdates⟩ :=
    recovery_round_trip env ideal_env faithfulNumbers_env enrollment factors
  obtain ⟨hrecovers, -, hrefuses⟩ := hupdates [⟨⟨3, 60⟩, iv, 2⟩]
  have hpin : factors.Wrong (some "4321") (some share) := .inl (by decide)
  have hshare : factors.Wrong (some "1234") (some (List.replicate 32 4)) := .inr (by decide)
  exact ⟨blob, faceKey, hblob, hrecovers liveFace liveFace_accepted,
    hrefuses liveFace _ _ hpin, hrefuses liveFace _ _ hshare⟩

end NeuronWeb.FaceStore
