/-
  Core/SignedContent: what the content hash of a block pins down.

  A block is one flat record, and `canonicalContent` picks a different list of its fields for
  each type. A record of strings is hashed with its keys sorted, so that it is pinned down as a
  map, not in its order.
-/
import NeuronWeb.Core.Block

set_option autoImplicit false

namespace NeuronWeb

variable {F : Type}

/-- `JSON.stringify` is injective on what blocks sign. -/
structure FaithfulJson (P : Primitives F) : Prop where
  encode_content : ∀ c c' : BlockContent F,
    P.encodeJson (canonicalContent c).sortValue = P.encodeJson (canonicalContent c').sortValue →
      (canonicalContent c).sortValue = (canonicalContent c').sortValue

/-! ## Reading values back from sorted JSON -/

namespace Json

/-- The value can be read back from its sorted JSON. -/
def Faithful {α : Type} (enc : α → Json F) : Prop :=
  Function.Injective fun a => (enc a).sortValue

theorem faithful_str : Faithful (F := F) .str := by
  intro s t h
  simpa [sortValue_str] using h

theorem faithful_num : Faithful (F := F) .num := by
  intro x y h
  simpa [sortValue_num] using h

theorem sortItems_eq_map (items : List (Json F)) : sortItems items = items.map sortValue := by
  induction items with
  | nil => rfl
  | cons v items ih => rw [sortItems_cons, ih, List.map_cons]

theorem faithful_arr {α : Type} {enc : α → Json F} (henc : Faithful enc) :
    Faithful fun l : List α => .arr (l.map enc) := by
  intro l l' h
  simp only [sortValue_arr, sortItems_eq_map, List.map_map, Json.arr.injEq] at h
  exact List.map_injective_iff.mpr henc h

theorem Faithful.option {α : Type} {enc : α → Json F} (henc : Faithful enc) {o o' : Option α}
    (h : (o.map enc).map sortValue = (o'.map enc).map sortValue) : o = o' := by
  simp only [Option.map_map] at h
  exact Option.map_injective henc h

theorem find_of_sortValue_eq {fields fields' : List (String × Json F)}
    (h : (Json.obj fields).sortValue = (Json.obj fields').sortValue) (key : String) :
    (JsMap.find key fields).map sortValue = (JsMap.find key fields').map sortValue := by
  simp only [sortValue_obj, Json.obj.injEq] at h
  rw [← find_sortFields, h, find_sortFields]

theorem find_append {V : Type} (key : String) (l l' : List (String × V)) :
    JsMap.find key (l ++ l') = (JsMap.find key l).or (JsMap.find key l') := by
  induction l with
  | nil => rfl
  | cons e l ih =>
    obtain ⟨k, v⟩ := e
    by_cases hk : k = key
    · simp [JsMap.find_cons, hk]
    · simp [JsMap.find_cons, hk, ih]

theorem find_field? (key name : String) (o : Option (Json F)) :
    JsMap.find key (field? name o) = if name = key then o else none := by
  cases o with
  | none => simp [field?, JsMap.find_nil]
  | some v => simp [field?, JsMap.find_nil, JsMap.find_cons]

theorem find_ofRecord (key : String) (entries : List (String × String)) :
    JsMap.find key (entries.map fun e => (e.1, (Json.str e.2 : Json F))) =
      (JsMap.find key entries).map .str := by
  induction entries with
  | nil => rfl
  | cons e entries ih =>
    obtain ⟨k, v⟩ := e
    by_cases hk : k = key
    · simp [JsMap.find_cons, hk]
    · simp [JsMap.find_cons, hk, ih]

end Json

/-! ## The values that blocks sign -/

theorem faithful_attestation : Json.Faithful (F := F) TypedAttestation.toJson := by
  intro a a' h
  have hkey := Json.find_of_sortValue_eq h
  have hpub := hkey "attesterPub"
  have htype := hkey "type"
  have hclaim := hkey "claimHash"
  have hsig := hkey "sig"
  simp [JsMap.find_cons, Json.sortValue_str] at hpub htype hclaim hsig
  cases a
  cases a'
  simp_all

theorem faithful_receipt : Json.Faithful (F := F) ReadReceiptWire.toJson := by
  intro r r' h
  have hkey := Json.find_of_sortValue_eq h
  have hreader := hkey "reader"
  have hprovider := hkey "provider"
  have hcounter := hkey "counter"
  have hbytes := hkey "bytesTotal"
  have hreads := hkey "readsTotal"
  have hlatency := hkey "lastLatencyMs"
  have hts := hkey "ts"
  simp [JsMap.find_cons, Json.sortValue_str, Json.sortValue_num]
    at hreader hprovider hcounter hbytes hreads hlatency hts
  cases r
  cases r'
  simp_all

theorem faithful_signedReceipt : Json.Faithful (F := F) SignedReceipt.toJson := by
  intro e e' h
  have hkey := Json.find_of_sortValue_eq h
  have hreceipt := hkey "receipt"
  have hsignature := hkey "signature"
  simp [JsMap.find_cons, Json.sortValue_str] at hreceipt hsignature
  have hreceipt := faithful_receipt hreceipt
  cases e
  cases e'
  simp_all

theorem faithful_storage : Json.Faithful (F := F) StoragePayload.toJson := by
  intro st st' h
  have hkey := Json.find_of_sortValue_eq h
  simp only [Json.find_append, Json.find_field?] at hkey
  have hcapacity : st.capacityGB = st'.capacityGB :=
    Json.faithful_num.option (by simpa using hkey "capacityGB")
  have hdevice : st.deviceId = st'.deviceId :=
    Json.faithful_str.option (by simpa using hkey "deviceId")
  have hclass : st.deviceClass = st'.deviceClass :=
    Json.faithful_str.option (by simpa using hkey "deviceClass")
  have hconcurrency : st.declaredConcurrency = st'.declaredConcurrency :=
    Json.faithful_num.option (by simpa using hkey "declaredConcurrency")
  have hreceipts : st.receipts = st'.receipts :=
    (Json.faithful_arr faithful_signedReceipt).option (by simpa using hkey "receipts")
  have hperiod : st.periodIndex = st'.periodIndex :=
    Json.faithful_num.option (by simpa using hkey "periodIndex")
  have hpublish : st.publishRoot = st'.publishRoot :=
    Json.faithful_str.option (by simpa using hkey "publishRoot")
  have hservice : st.serviceRoot = st'.serviceRoot :=
    Json.faithful_str.option (by simpa using hkey "serviceRoot")
  cases st
  cases st'
  simp_all

/-- The records bind each key to the same text. -/
def SameRecord (m m' : List (String × String)) : Prop :=
  ∀ key, JsMap.find key m = JsMap.find key m'

theorem sameRecord_of_json {m m' : List (String × String)}
    (h : (Json.ofRecord m : Json F).sortValue = (Json.ofRecord m').sortValue) :
    SameRecord m m' := by
  intro key
  have hkey := Json.find_of_sortValue_eq h key
  rw [Json.find_ofRecord, Json.find_ofRecord] at hkey
  exact Json.faithful_str.option hkey

theorem sameRecord_of_option {m m' : Option (List (String × String))}
    (h : (m.map (Json.ofRecord (F := F))).map Json.sortValue =
      (m'.map Json.ofRecord).map Json.sortValue) : Option.Rel SameRecord m m' := by
  cases m with
  | none =>
    cases m' with
    | none => exact .none
    | some r' => cases h
  | some r =>
    cases m' with
    | none => cases h
    | some r' => exact .some (sameRecord_of_json (Option.some.inj h))

/-! ## Contents with one hash -/

/-- The fields that a block signs beyond its header, by type. -/
def SameTyped (c c' : BlockContent F) : Prop :=
  match c.type with
  | .open => c.identityCommitment = c'.identityCommitment ∧ c.attestations = c'.attestations
  | .send =>
    c.recipient = c'.recipient ∧ c.amount = c'.amount ∧ c.recipientName = c'.recipientName
  | .receive => c.sourceHash = c'.sourceHash ∧ c.amount = c'.amount ∧
      c.senderPub = c'.senderPub ∧ c.senderName = c'.senderName
  | .update => Option.Rel SameRecord c.updates c'.updates
  | .nftMint => c.tokenId = c'.tokenId ∧ c.contentRef = c'.contentRef ∧
      Option.Rel SameRecord c.nftMeta c'.nftMeta
  | .nftSend => c.tokenId = c'.tokenId ∧ c.recipient = c'.recipient ∧
      c.recipientName = c'.recipientName
  | .nftReceive => c.tokenId = c'.tokenId ∧ c.sourceHash = c'.sourceHash ∧
      c.senderPub = c'.senderPub ∧ c.senderName = c'.senderName
  | .nftBurn => c.tokenId = c'.tokenId
  | .storageRegister => c.storage = c'.storage
  | .storageDeregister => c.storage = c'.storage
  | .storageSettle => c.storage = c'.storage ∧ c.amount = c'.amount

/-- Two contents sign the same. -/
structure SameSigned (c c' : BlockContent F) : Prop where
  accountId : c.accountId = c'.accountId
  index : c.index = c'.index
  type : c.type = c'.type
  previousHash : c.previousHash = c'.previousHash
  shard : c.shard = c'.shard
  timestamp : c.timestamp = c'.timestamp
  balance : c.balance = c'.balance
  typed : SameTyped c c'

theorem BlockType.tag_injective : Function.Injective BlockType.tag := by
  intro t t' h
  cases t <;> cases t' <;> first | rfl | (revert h; decide)

theorem faithful_amount : Json.Faithful (F := F) fun n : Int => .str (toString n) := by
  intro n m h
  have htext : toString n = toString m := by simpa [Json.sortValue_str] using h
  exact Text.toString_int_injective htext

variable {c c' : BlockContent F}

section

variable (h : (canonicalContent c).sortValue = (canonicalContent c').sortValue)
include h

theorem find_typedContent (key : String)
    (hkey : key ∉ ["accountId", "index", "type", "previousHash", "shard", "timestamp",
      "balance"]) : (JsMap.find key (typedContent c)).map Json.sortValue =
      (JsMap.find key (typedContent c')).map Json.sortValue := by
  have hfind := Json.find_of_sortValue_eq h key
  simp only [List.mem_cons, List.not_mem_nil, or_false, not_or] at hkey
  obtain ⟨h1, h2, h3, h4, h5, h6, h7⟩ := hkey
  simpa [JsMap.find_cons, Ne.symm h1, Ne.symm h2, Ne.symm h3, Ne.symm h4, Ne.symm h5, Ne.symm h6,
    Ne.symm h7] using hfind

theorem sameTyped_of_content (htype : c.type = c'.type) : SameTyped c c' := by
  have hfind : ∀ key, key ∉ ["accountId", "index", "type", "previousHash", "shard", "timestamp",
      "balance"] → _ := fun key hkey => find_typedContent h key hkey
  simp only [typedContent, ← htype] at hfind
  unfold SameTyped
  cases hc : c.type with
  | «open» =>
    simp only [hc, Json.find_append, Json.find_field?] at hfind
    exact ⟨Json.faithful_str.option (by simpa using hfind "identityCommitment" (by decide)),
      (Json.faithful_arr faithful_attestation).option
        (by simpa using hfind "attestations" (by decide))⟩
  | send =>
    simp only [hc, amountField, Json.find_append, Json.find_field?] at hfind
    exact ⟨Json.faithful_str.option (by simpa using hfind "recipient" (by decide)),
      faithful_amount.option (by simpa using hfind "amount" (by decide)),
      Json.faithful_str.option (by simpa using hfind "recipientName" (by decide))⟩
  | receive =>
    simp only [hc, amountField, Json.find_append, Json.find_field?] at hfind
    exact ⟨Json.faithful_str.option (by simpa using hfind "sourceHash" (by decide)),
      faithful_amount.option (by simpa using hfind "amount" (by decide)),
      Json.faithful_str.option (by simpa using hfind "senderPub" (by decide)),
      Json.faithful_str.option (by simpa using hfind "senderName" (by decide))⟩
  | update =>
    simp only [hc, Json.find_field?] at hfind
    exact sameRecord_of_option (by simpa using hfind "updates" (by decide))
  | nftMint =>
    simp only [hc, Json.find_append, Json.find_field?] at hfind
    exact ⟨Json.faithful_str.option (by simpa using hfind "tokenId" (by decide)),
      Json.faithful_str.option (by simpa using hfind "contentRef" (by decide)),
      sameRecord_of_option (by simpa using hfind "nftMeta" (by decide))⟩
  | nftSend =>
    simp only [hc, Json.find_append, Json.find_field?] at hfind
    exact ⟨Json.faithful_str.option (by simpa using hfind "tokenId" (by decide)),
      Json.faithful_str.option (by simpa using hfind "recipient" (by decide)),
      Json.faithful_str.option (by simpa using hfind "recipientName" (by decide))⟩
  | nftReceive =>
    simp only [hc, Json.find_append, Json.find_field?] at hfind
    exact ⟨Json.faithful_str.option (by simpa using hfind "tokenId" (by decide)),
      Json.faithful_str.option (by simpa using hfind "sourceHash" (by decide)),
      Json.faithful_str.option (by simpa using hfind "senderPub" (by decide)),
      Json.faithful_str.option (by simpa using hfind "senderName" (by decide))⟩
  | nftBurn =>
    simp only [hc, Json.find_field?] at hfind
    exact Json.faithful_str.option (by simpa using hfind "tokenId" (by decide))
  | storageRegister =>
    simp only [hc, Json.find_field?] at hfind
    exact faithful_storage.option (by simpa using hfind "storage" (by decide))
  | storageDeregister =>
    simp only [hc, Json.find_field?] at hfind
    exact faithful_storage.option (by simpa using hfind "storage" (by decide))
  | storageSettle =>
    simp only [hc, amountField, Json.find_append, Json.find_field?] at hfind
    exact ⟨faithful_storage.option (by simpa using hfind "storage" (by decide)),
      faithful_amount.option (by simpa using hfind "amount" (by decide))⟩

theorem sameSigned_of_content : SameSigned c c' := by
  have hkey := Json.find_of_sortValue_eq h
  have haccount := hkey "accountId"
  have hindex := hkey "index"
  have htype := hkey "type"
  have hprevious := hkey "previousHash"
  have hshard := hkey "shard"
  have htimestamp := hkey "timestamp"
  simp [JsMap.find_cons, Json.sortValue_str, Json.sortValue_int]
    at haccount hindex htype hprevious hshard htimestamp
  have hbalance : some c.balance = some c'.balance :=
    faithful_amount.option (by simpa [JsMap.find_cons] using hkey "balance")
  have htype := BlockType.tag_injective htype
  exact ⟨haccount, hindex, htype, hprevious, hshard, htimestamp,
    Option.some.inj hbalance, sameTyped_of_content h htype⟩

end

/-- Two valid forms of one signed block: one hash that both contents have, one accumulator
root, and a signature that verifies on each. -/
structure Twins (P : Primitives F) (b b' : Block F) : Prop where
  hash : b.hash = b'.hash
  accumulatorRoot : b.accumulatorRoot = b'.accumulatorRoot
  content : computeContentHash P b.toBlockContent = b.hash
  content' : computeContentHash P b'.toBlockContent = b'.hash
  signature : verifyBlockSignature P b = true
  signature' : verifyBlockSignature P b' = true

theorem sameSigned_of_hash {P : Primitives F} (hP : Function.Injective P.sha256)
    (hJ : FaithfulJson P) (h : computeContentHash P c = computeContentHash P c') :
    SameSigned c c' :=
  sameSigned_of_content (hJ.encode_content c c' (hP (bytesToHex_injective h)))

end NeuronWeb
