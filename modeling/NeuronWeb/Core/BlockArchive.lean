/-
  Core/BlockArchive: a block as an object, archived as bytes and fetched back
  (`encodeBlock`, `decodeBlock` of `engine/core/block.ts`).

  Unlike `Core/BlockCodec` nothing is assumed of the reader: the bytes are written and read by
  the functions of `Core/JsonText`.
-/
import NeuronWeb.Core.BlockCodec
import NeuronWeb.Core.CanonicalJson

set_option autoImplicit false

namespace NeuronWeb.BlockArchive

open JsonText

/-! ## `BigInt(value)` -/

/-- The white space and the line ends that `BigInt` skips around a text. -/
def WHITE : List Nat :=
  [9, 10, 11, 12, 13, 32, 0xA0, 0x1680, 0x2000, 0x2001, 0x2002, 0x2003, 0x2004, 0x2005, 0x2006,
    0x2007, 0x2008, 0x2009, 0x200A, 0x2028, 0x2029, 0x202F, 0x205F, 0x3000, 0xFEFF]

def isWhite (c : Char) : Bool := c.toNat ∈ WHITE

def trim (text : List Char) : List Char :=
  ((text.dropWhile isWhite).reverse.dropWhile isWhite).reverse

/-- The number that digits in a base write behind the number read so far. -/
def readDigits (base : Nat) : Nat → List Char → Option Nat
  | n, [] => some n
  | n, c :: digits =>
    match hexValue c with
    | some d => if d < base then readDigits base (base * n + d) digits else none
    | none => none

/-- At least one digit. -/
def readNatural (base : Nat) (digits : List Char) : Option Nat :=
  if digits = [] then none else readDigits base 0 digits

def prefixBase (c : Char) : Option Nat :=
  if c ∈ ['x', 'X'] then some 16
  else if c ∈ ['o', 'O'] then some 8
  else if c ∈ ['b', 'B'] then some 2
  else none

/-- `0x…`, `0o…` and `0b…`, or decimal digits. -/
def readUnsigned (text : List Char) : Option Nat :=
  match text with
  | '0' :: c :: digits =>
    match prefixBase c with
    | some base => readNatural base digits
    | none => readNatural 10 text
  | _ => readNatural 10 text

/-- `BigInt(text)`. -/
def readBigInt (text : String) : Option Int :=
  match trim text.toList with
  | [] => some 0
  | '-' :: digits => (readNatural 10 digits).map fun n => -(n : Int)
  | '+' :: digits => (readNatural 10 digits).map fun n => (n : Int)
  | digits => (readUnsigned digits).map fun n => (n : Int)

mutual

/-- `String(value)` of an item that an array is joined from. -/
def joined : Value → String
  | .null => ""
  | .bool b => if b then "true" else "false"
  | .int n => toString n
  | .num text => text
  | .str s => s
  | .arr items => ",".intercalate (joinedItems items)
  | .obj _ => "[object Object]"

def joinedItems : List Value → List String
  | [] => []
  | v :: rest => joined v :: joinedItems rest

end

/-- What decoding takes from the platform beyond what archived blocks need. -/
structure Platform where
  /-- Bytes that are not UTF-8, read with replacement characters. -/
  replace : Bytes → String
  /-- `BigInt(x)` of the number that a text writes; it throws unless the number is whole. -/
  wholeNumber : String → Option Int

/-- `BigInt(value)`; `none` where it throws. -/
def toBigInt (p : Platform) : Value → Option Int
  | .null => none
  | .bool b => some (if b then 1 else 0)
  | .int n => some n
  | .num text => p.wholeNumber text
  | .str s => readBigInt s
  | .arr items => readBigInt (joined (.arr items))
  | .obj _ => none

theorem trim_eq_self {text : List Char} (h : ∀ c ∈ text, isWhite c = false) : trim text = text := by
  have hdrop : ∀ l : List Char, (∀ c ∈ l, isWhite c = false) → l.dropWhile isWhite = l := by
    intro l hl
    cases l with
    | nil => rfl
    | cons c l =>
      rw [List.dropWhile_cons, hl c (List.mem_cons_self ..)]
      rfl
  rw [trim, hdrop text h, hdrop text.reverse fun c hc => h c (List.mem_reverse.mp hc),
    List.reverse_reverse]

theorem readDigits_decimal {digits : List Char} (h : ∀ c ∈ digits, c ∈ DIGIT) (n : Nat) :
    readDigits 10 n digits = some (Nat.ofDigitChars 10 digits n) := by
  have hvalue : ∀ c ∈ DIGIT, hexValue c = some (c.toNat - 48) ∧ c.toNat - 48 < 10 :=
    forall_mem_of_all (by decide)
  induction digits generalizing n with
  | nil => rw [readDigits, Nat.ofDigitChars_nil]
  | cons c digits ih =>
    obtain ⟨hc, hlt⟩ := hvalue c (h c (List.mem_cons_self ..))
    rw [readDigits, hc, Nat.ofDigitChars_cons]
    simp only [if_pos hlt]
    exact ih (fun c hc => h c (List.mem_cons_of_mem _ hc)) _

theorem mem_toDigits {c : Char} {n : Nat} (h : c ∈ Nat.toDigits 10 n) : c ∈ DIGIT := by
  have hletters : ∀ c ∈ CharClass.letters WHOLE, c ∈ DIGIT := forall_mem_of_all (by decide)
  exact hletters c (CharClass.mem_letters_of_rmatch (whole_toDigits n) c h)

theorem readNatural_toDigits (n : Nat) : readNatural 10 (Nat.toDigits 10 n) = some n := by
  rw [readNatural, if_neg Nat.toDigits_ne_nil, readDigits_decimal (fun c hc => mem_toDigits hc),
    Nat.ofDigitChars_ten_toDigits]

theorem readUnsigned_toDigits (n : Nat) : readUnsigned (Nat.toDigits 10 n) = some n := by
  have hbase : ∀ c ∈ DIGIT, prefixBase c = none := forall_mem_of_all (by decide)
  have hread := readNatural_toDigits n
  have hdigits : ∀ c ∈ Nat.toDigits 10 n, c ∈ DIGIT := fun c hc => mem_toDigits hc
  generalize Nat.toDigits 10 n = digits at hread hdigits
  unfold readUnsigned
  split
  case h_1 c digits =>
    rw [hbase c (hdigits c (by simp))]
    exact hread
  case h_2 => exact hread

theorem readBigInt_toString (n : Int) : readBigInt (toString n) = some n := by
  have hwhite : ∀ c ∈ DIGIT, isWhite c = false ∧ c ≠ '-' ∧ c ≠ '+' :=
    forall_mem_of_all (by decide)
  cases n with
  | ofNat n =>
    have htrim : trim (Nat.toDigits 10 n) = Nat.toDigits 10 n :=
      trim_eq_self fun c hc => (hwhite c (mem_toDigits hc)).1
    have hread := readUnsigned_toDigits n
    have hsign : ∀ c ∈ Nat.toDigits 10 n, c ≠ '-' ∧ c ≠ '+' :=
      fun c hc => (hwhite c (mem_toDigits hc)).2
    have hne : Nat.toDigits 10 n ≠ [] := Nat.toDigits_ne_nil
    rw [readBigInt, toList_toString_ofNat, htrim]
    generalize Nat.toDigits 10 n = digits at hread hsign hne
    split
    case h_1 => exact absurd rfl hne
    case h_2 => exact absurd rfl (hsign '-' (by simp)).1
    case h_3 => exact absurd rfl (hsign '+' (by simp)).2
    case h_4 =>
      rw [hread]
      rfl
  | negSucc n =>
    have htrim : trim ('-' :: Nat.toDigits 10 (n + 1)) = '-' :: Nat.toDigits 10 (n + 1) := by
      refine trim_eq_self fun c hc => ?_
      rcases List.mem_cons.mp hc with rfl | hc
      · decide
      · exact (hwhite c (mem_toDigits hc)).1
    rw [readBigInt, toList_toString_negSucc, htrim]
    simp only [readNatural_toDigits]
    rfl

/-! ## Block objects -/

/-- A property of a block: a bigint, or a value of JSON. -/
inductive Property where
  | bigint (n : Int)
  | json (v : Value)

/-- `sortValue` writes a bigint as its decimal text. -/
def Property.toValue : Property → Value
  | .bigint n => .str (toString n)
  | .json v => v

/-- The properties of a block. -/
abbrev BlockObject := List (String × Property)

/-- The block as a value of JSON. -/
def BlockObject.values (o : BlockObject) : List (String × Value) :=
  o.map fun e => (e.1, e.2.toValue)

/-- `encodeBlock(block)`. -/
def encodeBlock (o : BlockObject) : Bytes := utf8ToBytes (canonicalJson (.obj o.values))

/-- `new TextDecoder().decode(bytes)`: a byte order mark in front is dropped. -/
def textDecode (p : Platform) (bytes : Bytes) : String :=
  match String.fromUTF8? ⟨bytes.toArray⟩ with
  | some text =>
    if text.toList.head? = some (Char.ofNat 0xFEFF) then String.ofList text.toList.tail else text
  | none => p.replace bytes

/-- `decodeBlock(bytes)`; `none` where it throws.  What is not an object has no balance. -/
def decodeBlock (p : Platform) (bytes : Bytes) : Option BlockObject :=
  match parse (textDecode p bytes) with
  | some (.obj raw) =>
    match (JsMap.find "balance" raw).bind (toBigInt p) with
    | none => none
    | some balance =>
      let block := JsMap.insert "balance" (.bigint balance) (raw.map fun e => (e.1, .json e.2))
      match JsMap.find "amount" raw with
      | none => some block
      | some v =>
        match toBigInt p v with
        | none => none
        | some amount => some (JsMap.insert "amount" (.bigint amount) block)
  | _ => none

namespace BlockObject

/-- `out.key = c.key`, which is not written when it is undefined. -/
def copy (o : BlockObject) (key : String) : List (String × Value) :=
  Json.field? key ((JsMap.find key o).map Property.toValue)

/-- `out.key = c.key?.toString()`, of the properties that are bigints. -/
def decimal (o : BlockObject) (key : String) : List (String × Value) :=
  match JsMap.find key o with
  | some (.bigint n) => [(key, .str (toString n))]
  | _ => []

/-- `c.key` where it is a text. -/
def text? (o : BlockObject) (key : String) : Option String :=
  match JsMap.find key o with
  | some (.json (.str s)) => some s
  | _ => none

def typedContent (o : BlockObject) : List (String × Value) :=
  let is (tag : String) : Bool := o.text? "type" == some tag
  if is "open" then o.copy "identityCommitment" ++ o.copy "attestations"
  else if is "send" then o.copy "recipient" ++ o.decimal "amount" ++ o.copy "recipientName"
  else if is "receive" then
    o.copy "sourceHash" ++ o.decimal "amount" ++ o.copy "senderPub" ++ o.copy "senderName"
  else if is "update" then o.copy "updates"
  else if is "nft-mint" then o.copy "tokenId" ++ o.copy "contentRef" ++ o.copy "nftMeta"
  else if is "nft-send" then o.copy "tokenId" ++ o.copy "recipient" ++ o.copy "recipientName"
  else if is "nft-receive" then
    o.copy "tokenId" ++ o.copy "sourceHash" ++ o.copy "senderPub" ++ o.copy "senderName"
  else if is "nft-burn" then o.copy "tokenId"
  else if is "storage-register" || is "storage-deregister" then o.copy "storage"
  else if is "storage-settle" then o.copy "storage" ++ o.decimal "amount"
  else []

/-- `canonicalContent(c)`. -/
def canonicalContent (o : BlockObject) : List (String × Value) :=
  o.copy "accountId" ++ o.copy "index" ++ o.copy "type" ++ o.copy "previousHash" ++
    o.copy "shard" ++ o.copy "timestamp" ++ o.decimal "balance" ++ o.typedContent

variable {F : Type}

/-- `computeContentHash(content)`. -/
def computeContentHash (P : Primitives F) (o : BlockObject) : Hex :=
  hashHex P (utf8ToBytes (canonicalJson (.obj o.canonicalContent)))

/-- `verifyBlockSignature(block)`, of an object whose hash, root, signature and account are
texts. -/
def verifyBlockSignature (P : Primitives F) (o : BlockObject) : Option Bool :=
  match o.text? "signature", o.text? "hash", o.text? "accumulatorRoot", o.text? "accountId" with
  | some signature, some hash, some accumulatorRoot, some accountId =>
    some (P.verify signature (blockSigningMessage hash accumulatorRoot) accountId)
  | _, _, _, _ => none

/-- `verifyBlock(block)`. -/
def verifyBlock (P : Primitives F) (o : BlockObject) : Option Bool :=
  if o.text? "hash" ≠ some (o.computeContentHash P) then some false
  else o.verifyBlockSignature P

end BlockObject

/-! ## Blocks as objects -/

variable {F : Type}

mutual

/-- The numbers of a value as texts. -/
def texts [JsNumber F] : Json F → Value
  | .null => .null
  | .bool b => .bool b
  | .int n => .int n
  | .num x => .num (JsNumber.toText x)
  | .str s => .str s
  | .arr items => .arr (textsItems items)
  | .obj fields => .obj (textsFields fields)

def textsItems [JsNumber F] : List (Json F) → List Value
  | [] => []
  | v :: rest => texts v :: textsItems rest

def textsFields [JsNumber F] : List (String × Json F) → List (String × Value)
  | [] => []
  | (key, v) :: rest => (key, texts v) :: textsFields rest

end

/-- A property that may be undefined. -/
def property? (key : String) : Option Property → BlockObject
  | some v => [(key, v)]
  | none => []

section

variable [JsNumber F]

/-- The object of a block. -/
def object (b : Block F) : BlockObject :=
  let json (v : Json F) : Property := .json (texts v)
  [("accountId", json (.str b.accountId)), ("index", json (.int b.index)),
    ("type", json (.str b.type.tag)), ("previousHash", json (.str b.previousHash)),
    ("shard", json (.int b.shard)), ("timestamp", json (.int b.timestamp)),
    ("balance", .bigint b.balance)] ++
  property? "identityCommitment" (b.identityCommitment.map fun s => json (.str s)) ++
  property? "attestations"
    (b.attestations.map fun l => json (.arr (l.map TypedAttestation.toJson))) ++
  property? "recipient" (b.recipient.map fun s => json (.str s)) ++
  property? "sourceHash" (b.sourceHash.map fun s => json (.str s)) ++
  property? "amount" (b.amount.map .bigint) ++
  property? "updates" (b.updates.map fun r => json (Json.ofRecord r)) ++
  property? "tokenId" (b.tokenId.map fun s => json (.str s)) ++
  property? "contentRef" (b.contentRef.map fun s => json (.str s)) ++
  property? "nftMeta" (b.nftMeta.map fun r => json (Json.ofRecord r)) ++
  property? "recipientName" (b.recipientName.map fun s => json (.str s)) ++
  property? "senderPub" (b.senderPub.map fun s => json (.str s)) ++
  property? "senderName" (b.senderName.map fun s => json (.str s)) ++
  property? "storage" (b.storage.map fun st => json st.toJson) ++
  [("accumulatorRoot", json (.str b.accumulatorRoot)), ("hash", json (.str b.hash)),
    ("signature", json (.str b.signature))]

end

/-! ## Decoding what was encoded -/

/-- The properties of an object that are bigints: the balance, and the amount if there is one. -/
structure Bigints (o : BlockObject) : Prop where
  balance : ∃ n, JsMap.find "balance" o = some (.bigint n)
  amount : ∀ v, JsMap.find "amount" o = some v → ∃ n, v = .bigint n
  other : ∀ key n, JsMap.find key o = some (.bigint n) → key = "balance" ∨ key = "amount"

/-- A property that went through the archive. -/
def Property.archived : Property → Property
  | .bigint n => .bigint n
  | .json v => .json (JsonText.archived v)

theorem find_values (key : String) (o : BlockObject) :
    JsMap.find key o.values = (JsMap.find key o).map Property.toValue :=
  JsMap.find_map Property.toValue key o

theorem values_insert (key : String) (v : Property) (o : BlockObject) :
    BlockObject.values (JsMap.insert key v o) = JsMap.insert key v.toValue o.values := by
  induction o with
  | nil => rfl
  | cons e o ih =>
    obtain ⟨key', v'⟩ := e
    simp only [BlockObject.values, List.map_cons, JsMap.insert] at ih ⊢
    split
    case isTrue => rfl
    case isFalse => rw [List.map_cons, ih]

theorem values_json (raw : List (String × Value)) :
    BlockObject.values (raw.map fun e => (e.1, .json e.2)) = raw := by
  rw [BlockObject.values, List.map_map]
  exact List.map_id raw

theorem textDecode_utf8ToBytes (p : Platform) {s : String}
    (h : s.toList.head? ≠ some (Char.ofNat 0xFEFF)) : textDecode p (utf8ToBytes s) = s := by
  have hbytes : String.fromUTF8? ⟨(utf8ToBytes s).toArray⟩ = some s := by
    have hsame : (⟨(utf8ToBytes s).toArray⟩ : ByteArray) = s.toByteArray := by
      rw [utf8ToBytes, Array.toArray_toList]
      rfl
    rw [hsame, String.fromUTF8?, dif_pos s.isValidUTF8]
    rfl
  rw [textDecode, hbytes]
  exact if_neg h

theorem canonicalJson_head (fields : List (String × Value)) :
    (canonicalJson (.obj fields)).toList.head? = some (Char.ofNat 123) := by
  rw [canonicalJson, sortValue, stringify, String.toList_ofList]
  cases sortFields fields with
  | nil => rfl
  | cons e rest =>
    obtain ⟨key, v⟩ := e
    rfl

theorem archived_obj (fields : List (String × Value)) :
    ∃ raw, archived (.obj fields) = .obj raw := ⟨_, rfl⟩

theorem find_insert_json (key : String) (v : Property) (raw : List (String × Value)) (j : String) :
    JsMap.find j (JsMap.insert key v (raw.map fun e => (e.1, .json e.2))) =
      if key = j then some v else (JsMap.find j raw).map .json := by
  rw [JsMap.find_insert, JsMap.find_map Property.json]

/-- The bigints are revived, and the rest is what was parsed. -/
theorem decodeBlock_of_parse {p : Platform} {bytes : Bytes} {raw : List (String × Value)}
    {balance : Int} {amount : Option Int} (hparse : parse (textDecode p bytes) = some (.obj raw))
    (hbalance : JsMap.find "balance" raw = some (.str (toString balance)))
    (hamount : JsMap.find "amount" raw = amount.map fun n => .str (toString n)) :
    ∃ d, decodeBlock p bytes = some d ∧ BlockObject.values d = raw ∧
      ∀ key, JsMap.find key d =
        if "amount" = key then amount.map .bigint
        else if "balance" = key then some (.bigint balance)
        else (JsMap.find key raw).map .json := by
  have hread : (JsMap.find "balance" raw).bind (toBigInt p) = some balance := by
    rw [hbalance, Option.bind_some, toBigInt, readBigInt_toString]
  have hvalues : BlockObject.values (JsMap.insert "balance" (.bigint balance)
      (raw.map fun e => (e.1, .json e.2))) = raw := by
    rw [values_insert, values_json]
    exact JsMap.insert_eq_self hbalance
  cases amount with
  | none =>
    have hdecode : decodeBlock p bytes = some (JsMap.insert "balance" (.bigint balance)
        (raw.map fun e => (e.1, .json e.2))) := by
      unfold decodeBlock
      simp only [hparse, hread, hamount, Option.map_none]
    refine ⟨_, hdecode, hvalues, fun key => ?_⟩
    rw [find_insert_json]
    by_cases ha : "amount" = key
    · subst ha
      rw [if_pos rfl, if_neg (by decide), hamount]
      rfl
    · rw [if_neg ha]
  | some amount =>
    have hdecode : decodeBlock p bytes = some (JsMap.insert "amount" (.bigint amount)
        (JsMap.insert "balance" (.bigint balance) (raw.map fun e => (e.1, .json e.2)))) := by
      unfold decodeBlock
      simp only [hparse, hread, hamount, Option.map_some, toBigInt, readBigInt_toString]
    refine ⟨_, hdecode, ?_, fun key => ?_⟩
    · rw [values_insert, hvalues]
      exact JsMap.insert_eq_self hamount
    · rw [JsMap.find_insert, find_insert_json]
      rfl

/-- What comes back has the properties that were archived, its bigints revived. -/
theorem decodeBlock_encodeBlock {o : BlockObject} (h : Bigints o) (p : Platform) :
    ∃ d, decodeBlock p (encodeBlock o) = some d ∧ .obj d.values = archived (.obj o.values) ∧
      ∀ key, JsMap.find key d =
        if key = PROTO then none else (JsMap.find key o).map Property.archived := by
  obtain ⟨raw, hraw⟩ := archived_obj o.values
  have hparse : parse (textDecode p (encodeBlock o)) = some (.obj raw) := by
    rw [encodeBlock, textDecode_utf8ToBytes p, parse_canonicalJson, hraw]
    rw [canonicalJson_head]
    decide
  have hfind : ∀ key, key ≠ PROTO → JsMap.find key raw =
      (JsMap.find key o).map fun v => JsonText.archived v.toValue := by
    intro key hkey
    rw [find_archived hraw hkey, find_values, Option.map_map]
    rfl
  obtain ⟨balance, hbalance⟩ := h.balance
  obtain ⟨amount, hamount⟩ : ∃ amount : Option Int, JsMap.find "amount" o = amount.map .bigint := by
    cases hfound : JsMap.find "amount" o with
    | none => exact ⟨none, rfl⟩
    | some v =>
      obtain ⟨n, rfl⟩ := h.amount v hfound
      exact ⟨some n, rfl⟩
  have hrawbalance : JsMap.find "balance" raw = some (.str (toString balance)) := by
    rw [hfind _ (by decide), hbalance]
    rfl
  have hrawamount : JsMap.find "amount" raw = amount.map fun n => .str (toString n) := by
    rw [hfind _ (by decide), hamount, Option.map_map]
    rfl
  obtain ⟨d, hdecode, hvalues, hd⟩ := decodeBlock_of_parse hparse hrawbalance hrawamount
  refine ⟨d, hdecode, by rw [hvalues, hraw], fun key => ?_⟩
  rw [hd]
  by_cases hkey : key = PROTO
  · subst hkey
    rw [if_neg (by decide), if_neg (by decide), if_pos rfl, find_proto_archived hraw]
    rfl
  · rw [if_neg hkey]
    by_cases ha : "amount" = key
    · subst ha
      rw [if_pos rfl, hamount, Option.map_map]
      rfl
    · rw [if_neg ha]
      by_cases hb : "balance" = key
      · subst hb
        rw [if_pos rfl, hbalance]
        rfl
      · rw [if_neg hb, hfind key hkey, Option.map_map]
        cases hv : JsMap.find key o with
        | none => rfl
        | some v =>
          cases v with
          | json v => rfl
          | bigint n => exact ((h.other key n hv).elim (Ne.symm hb) (Ne.symm ha)).elim

/-! ## Hash and signature of what comes back -/

/-- The properties of `d` are those of `o` after the archive. -/
def Fetched (o d : BlockObject) : Prop :=
  ∀ key, key ≠ PROTO → JsMap.find key d = (JsMap.find key o).map Property.archived

namespace Fetched

variable {o d : BlockObject} (h : Fetched o d)

include h

theorem text? {key : String} (hkey : key ≠ PROTO) : d.text? key = o.text? key := by
  unfold BlockObject.text?
  rw [h key hkey]
  cases JsMap.find key o with
  | none => rfl
  | some v =>
    cases v with
    | bigint n => rfl
    | json v =>
      cases v with
      | num text =>
        simp only [Option.map_some, Property.archived, archived, sortValue, written]
        cases isNumeral text <;> rfl
      | null | bool _ | int _ | str _ | arr _ | obj _ => rfl

theorem copy {key : String} (hkey : key ≠ PROTO) :
    d.copy key = (o.copy key).map fun e => (e.1, archived e.2) := by
  unfold BlockObject.copy
  rw [h key hkey]
  cases JsMap.find key o with
  | none => rfl
  | some v => cases v <;> rfl

theorem decimal {key : String} (hkey : key ≠ PROTO) :
    d.decimal key = (o.decimal key).map fun e => (e.1, archived e.2) := by
  unfold BlockObject.decimal
  rw [h key hkey]
  cases JsMap.find key o with
  | none => rfl
  | some v => cases v <;> rfl

theorem typedContent :
    d.typedContent = o.typedContent.map fun e => (e.1, archived e.2) := by
  have hif : ∀ (c : Bool) {x x' y y' : List (String × Value)},
      x = x'.map (fun e => (e.1, archived e.2)) → y = y'.map (fun e => (e.1, archived e.2)) →
        (if c then x else y) = (if c then x' else y').map fun e => (e.1, archived e.2) := by
    intro c x x' y y' hx hy
    cases c with
    | true => exact hx
    | false => exact hy
  unfold BlockObject.typedContent
  have htype : d.text? "type" = o.text? "type" := h.text? (by decide)
  rw [htype]
  refine hif _ ?opened (hif _ ?sent (hif _ ?received (hif _ ?updated (hif _ ?minted
    (hif _ ?nftSent (hif _ ?nftReceived (hif _ ?burnt (hif _ ?registered
      (hif _ ?settled rfl)))))))))
  all_goals simp (disch := decide) only [h.copy, h.decimal, List.map_append]

theorem canonicalContent :
    d.canonicalContent = o.canonicalContent.map fun e => (e.1, archived e.2) := by
  unfold BlockObject.canonicalContent
  simp (disch := decide) only [h.copy, h.decimal, h.typedContent, List.map_append]

variable {F : Type} (P : Primitives F)

theorem computeContentHash : d.computeContentHash P = o.computeContentHash P := by
  rw [BlockObject.computeContentHash, h.canonicalContent, canonicalJson_map_archived]
  rfl

theorem verifyBlockSignature : d.verifyBlockSignature P = o.verifyBlockSignature P := by
  unfold BlockObject.verifyBlockSignature
  simp (disch := decide) only [h.text?]

theorem verifyBlock : d.verifyBlock P = o.verifyBlock P := by
  unfold BlockObject.verifyBlock
  rw [h.text? (by decide), h.computeContentHash P, h.verifyBlockSignature P]

end Fetched

/-! ## The object of a block -/

section

variable {F : Type} [JsNumber F]

theorem textsItems_eq_map (items : List (Json F)) : textsItems items = items.map texts := by
  induction items with
  | nil => rfl
  | cons v rest ih => rw [textsItems, ih, List.map_cons]

theorem textsFields_append (l r : List (String × Json F)) :
    textsFields (l ++ r) = textsFields l ++ textsFields r := by
  induction l with
  | nil => rfl
  | cons e l ih =>
    obtain ⟨key, v⟩ := e
    rw [List.cons_append, textsFields, textsFields, ih, List.cons_append]

theorem textsFields_field? (key : String) (o : Option (Json F)) :
    textsFields (Json.field? key o) = Json.field? key (o.map texts) := by
  cases o <;> rfl

theorem values_append (o o' : BlockObject) :
    BlockObject.values (o ++ o') = o.values ++ o'.values := List.map_append

theorem values_property? (key : String) (v : Option Property) :
    BlockObject.values (property? key v) = Json.field? key (v.map Property.toValue) := by
  cases v <;> rfl

theorem values_object (b : Block F) : .obj (object b).values = texts b.toJson := by
  simp only [object, values_append, values_property?, Block.toJson, texts, textsFields_append,
    textsFields_field?, amountField, Option.map_map]
  rfl

theorem find_property? (key name : String) (v : Option Property) :
    JsMap.find key (property? name v) = if name = key then v else none := by
  cases v with
  | none => simp [property?, JsMap.find]
  | some v => simp [property?, JsMap.find]

theorem forall_mem_property? {Q : String × Property → Prop} (key : String) (v : Option Property) :
    (∀ e ∈ property? key v, Q e) ↔ ∀ p, v = some p → Q (key, p) := by
  cases v with
  | none => simp [property?]
  | some v => simp [property?]

theorem bigints_object (b : Block F) : Bigints (object b) := by
  have hfound : JsMap.find "balance" (object b) = some (.bigint b.balance) ∧
      JsMap.find "amount" (object b) = b.amount.map .bigint := by
    simp only [object, Json.find_append, find_property?, JsMap.find_cons, JsMap.find_nil,
      String.reduceEq, if_false, if_true, Option.none_or, Option.or_none, and_self]
  refine ⟨⟨b.balance, hfound.1⟩, fun v hv => ?_, fun key n hv => ?_⟩
  · rw [hfound.2] at hv
    obtain ⟨n, -, rfl⟩ := Option.map_eq_some_iff.mp hv
    exact ⟨n, rfl⟩
  · have hall : ∀ e ∈ object b, (e.1 = "balance" ∨ e.1 = "amount") ∨ ∃ v, e.2 = .json v := by
      simp only [object, List.forall_mem_append, forall_mem_property?, List.forall_mem_cons]
      simp
    rcases hall _ (JsMap.mem_of_find hv) with h | ⟨v, h⟩
    · exact h
    · cases h

/-- What the object of a block copies into its content. -/
structure Copies (b : Block F) (o : BlockObject) : Prop where
  header : o.copy "accountId" ++ o.copy "index" ++ o.copy "type" ++ o.copy "previousHash" ++
    o.copy "shard" ++ o.copy "timestamp" ++ o.decimal "balance" =
      [("accountId", .str b.accountId), ("index", .int b.index), ("type", .str b.type.tag),
        ("previousHash", .str b.previousHash), ("shard", .int b.shard),
        ("timestamp", .int b.timestamp), ("balance", .str (toString b.balance))]
  type : o.text? "type" = some b.type.tag
  identityCommitment : o.copy "identityCommitment" =
    Json.field? "identityCommitment" (b.identityCommitment.map .str)
  attestations : o.copy "attestations" = Json.field? "attestations"
    (b.attestations.map fun l => texts (.arr (l.map TypedAttestation.toJson) : Json F))
  recipient : o.copy "recipient" = Json.field? "recipient" (b.recipient.map .str)
  sourceHash : o.copy "sourceHash" = Json.field? "sourceHash" (b.sourceHash.map .str)
  amount : o.decimal "amount" = amountField b.amount
  updates : o.copy "updates" =
    Json.field? "updates" (b.updates.map fun r => texts (Json.ofRecord r : Json F))
  tokenId : o.copy "tokenId" = Json.field? "tokenId" (b.tokenId.map .str)
  contentRef : o.copy "contentRef" = Json.field? "contentRef" (b.contentRef.map .str)
  nftMeta : o.copy "nftMeta" =
    Json.field? "nftMeta" (b.nftMeta.map fun r => texts (Json.ofRecord r : Json F))
  recipientName : o.copy "recipientName" =
    Json.field? "recipientName" (b.recipientName.map .str)
  senderPub : o.copy "senderPub" = Json.field? "senderPub" (b.senderPub.map .str)
  senderName : o.copy "senderName" = Json.field? "senderName" (b.senderName.map .str)
  storage : o.copy "storage" = Json.field? "storage" (b.storage.map fun st => texts st.toJson)
  hash : o.text? "hash" = some b.hash
  accumulatorRoot : o.text? "accumulatorRoot" = some b.accumulatorRoot
  signature : o.text? "signature" = some b.signature
  accountId : o.text? "accountId" = some b.accountId

theorem copies_object (b : Block F) : Copies b (object b) := by
  constructor
  case amount =>
    unfold BlockObject.decimal
    simp only [object, Json.find_append, find_property?, JsMap.find_cons, JsMap.find_nil,
      String.reduceEq, if_false, if_true, Option.none_or, Option.or_none]
    cases b.amount <;> rfl
  case header =>
    unfold BlockObject.copy BlockObject.decimal
    simp only [object, Json.find_append, find_property?, JsMap.find_cons, JsMap.find_nil,
      String.reduceEq, if_false, if_true, Option.some_or]
    rfl
  case type | hash | accumulatorRoot | signature | accountId =>
    unfold BlockObject.text?
    simp only [object, Json.find_append, find_property?, JsMap.find_cons, JsMap.find_nil,
      String.reduceEq, if_false, if_true, Option.some_or, Option.none_or, texts]
  all_goals
    unfold BlockObject.copy
    simp only [object, Json.find_append, find_property?, JsMap.find_cons, JsMap.find_nil,
      String.reduceEq, if_false, if_true, Option.none_or, Option.or_none, Option.map_map]
    rfl

theorem canonicalContent_object (b : Block F) :
    .obj (object b).canonicalContent = texts (canonicalContent b.toBlockContent) := by
  have h := copies_object b
  unfold BlockObject.canonicalContent
  rw [h.header]
  unfold BlockObject.typedContent
  simp only [h.type, h.identityCommitment, h.attestations, h.recipient, h.sourceHash, h.amount,
    h.updates, h.tokenId, h.contentRef, h.nftMeta, h.recipientName, h.senderPub, h.senderName,
    h.storage]
  unfold canonicalContent typedContent
  cases b.type <;>
    simp [BlockType.tag, texts, textsFields_append, textsFields_field?, textsFields, amountField,
      Option.map_map, Function.comp_def]

theorem verifyBlockSignature_object (P : Primitives F) (b : Block F) :
    (object b).verifyBlockSignature P = some (verifyBlockSignature P b) := by
  have h := copies_object b
  rw [BlockObject.verifyBlockSignature, h.signature, h.hash, h.accumulatorRoot, h.accountId]
  rfl

/-! ## The round trip -/

/-- No record of the block has a property named `__proto__`, and every number in its storage
payload is finite. -/
structure Archivable (b : Block F) : Prop where
  updates : ∀ r, b.updates = some r → PROTO ∉ r.map Prod.fst
  nftMeta : ∀ r, b.nftMeta = some r → PROTO ∉ r.map Prod.fst
  numbers : ∀ x ∈ b.numbers, isNumeral (JsNumber.toText x) = true

@[simp] theorem texts_str (s : String) : texts (.str s : Json F) = .str s := rfl

@[simp] theorem texts_num (x : F) : texts (.num x) = .num (JsNumber.toText x) := rfl

theorem forall_mem_field? {α : Type} {Q : String × Value → Prop} (key : String) (o : Option α)
    (f : α → Value) :
    (∀ e ∈ Json.field? key (o.map f), Q e) ↔ ∀ x, o = some x → Q (key, f x) := by
  cases o with
  | none => simp [Json.field?]
  | some x => simp [Json.field?]

theorem keys_textsFields (l : List (String × Json F)) :
    (textsFields l).map Prod.fst = l.map Prod.fst := by
  induction l with
  | nil => rfl
  | cons e l ih =>
    obtain ⟨key, v⟩ := e
    rw [textsFields, List.map_cons, ih, List.map_cons]

omit [JsNumber F] in
theorem keys_field? (key : String) (o : Option (Json F)) :
    ((Json.field? key o).map Prod.fst).Sublist [key] := by
  cases o with
  | none => exact List.nil_sublist _
  | some v => exact List.Sublist.refl _

omit [JsNumber F] in
theorem keys_append {l r : List (String × Json F)} {keys keys' : List String}
    (hl : (l.map Prod.fst).Sublist keys) (hr : (r.map Prod.fst).Sublist keys') :
    ((l ++ r).map Prod.fst).Sublist (keys ++ keys') := by
  rw [List.map_append]
  exact hl.append hr

theorem clean_texts_iff {fields : List (String × Json F)} (keys : List String)
    (hsub : (fields.map Prod.fst).Sublist keys) (hnodup : keys.Nodup) (hproto : PROTO ∉ keys) :
    Clean (texts (.obj fields)) ↔ ∀ e ∈ textsFields fields, Clean e.2 := by
  have hkeys : (textsFields fields).map Prod.fst = fields.map Prod.fst := keys_textsFields fields
  rw [texts, clean_obj_of_nodup (hkeys ▸ hnodup.sublist hsub)]
  refine ⟨fun h e he => (h e he).2, fun h e he => ⟨?_, h e he⟩⟩
  rintro hkey
  have hmem : e.1 ∈ (textsFields fields).map Prod.fst := List.mem_map_of_mem he
  rw [hkeys, hkey] at hmem
  exact hproto (hsub.subset hmem)

theorem clean_record_iff (r : List (String × String)) :
    Clean (texts (Json.ofRecord r : Json F)) ↔ PROTO ∉ r.map Prod.fst := by
  have hrecord : textsFields (r.map fun e => (e.1, (Json.str e.2 : Json F))) =
      r.map fun e => (e.1, Json.str e.2) := by
    induction r with
    | nil => rfl
    | cons e r ih => rw [List.map_cons, textsFields, ih, texts, List.map_cons]
  rw [Json.ofRecord, texts, hrecord, clean_obj_iff]
  simp only [Json.find_ofRecord]
  constructor
  · intro h hmem
    obtain ⟨s, hs⟩ := JsMap.exists_find hmem
    exact (h PROTO (.str s) (by rw [hs]; rfl)).1 rfl
  · intro h k v hv
    obtain ⟨s, hs, rfl⟩ := Option.map_eq_some_iff.mp hv
    refine ⟨?_, clean_str s⟩
    rintro rfl
    exact h (List.mem_map_of_mem (f := Prod.fst) (JsMap.mem_of_find hs))

theorem clean_attestations (l : List TypedAttestation) :
    Clean (texts (.arr (l.map TypedAttestation.toJson) : Json F)) := by
  rw [texts, textsItems_eq_map, clean_arr_iff]
  intro v hv
  obtain ⟨w, hw, rfl⟩ := List.mem_map.mp hv
  obtain ⟨a, -, rfl⟩ := List.mem_map.mp hw
  rw [TypedAttestation.toJson, clean_texts_iff ["attesterPub", "type", "claimHash", "sig"]
    (List.Sublist.refl _) (by decide) (by decide)]
  simp [textsFields, texts]

theorem clean_receipt_iff (e : SignedReceipt F) :
    Clean (texts e.toJson) ↔ ∀ x ∈ e.receipt.numbers, isNumeral (JsNumber.toText x) = true := by
  have hreceipt : Clean (texts e.receipt.toJson) ↔
      ∀ x ∈ e.receipt.numbers, isNumeral (JsNumber.toText x) = true := by
    rw [ReadReceiptWire.toJson,
      clean_texts_iff ["reader", "provider", "counter", "bytesTotal", "readsTotal",
        "lastLatencyMs", "ts"] (List.Sublist.refl _) (by decide) (by decide)]
    simp [textsFields, texts, ReadReceiptWire.numbers]
  rw [← hreceipt, SignedReceipt.toJson,
    clean_texts_iff ["receipt", "signature"] (List.Sublist.refl _) (by decide) (by decide)]
  simp [textsFields, texts]

theorem clean_receipts_iff (l : List (SignedReceipt F)) :
    Clean (texts (.arr (l.map SignedReceipt.toJson) : Json F)) ↔
      ∀ x ∈ l.flatMap fun e => e.receipt.numbers, isNumeral (JsNumber.toText x) = true := by
  rw [texts, textsItems_eq_map, clean_arr_iff]
  simp only [List.forall_mem_map, clean_receipt_iff, List.forall_mem_flatMap]

theorem clean_storage_iff (st : StoragePayload F) :
    Clean (texts st.toJson) ↔ ∀ x ∈ st.numbers, isNumeral (JsNumber.toText x) = true := by
  have h := keys_field? (F := F)
  rw [StoragePayload.toJson, clean_texts_iff _ (keys_append (keys_append (keys_append (keys_append
    (keys_append (keys_append (keys_append (h _ _) (h _ _)) (h _ _)) (h _ _)) (h _ _)) (h _ _))
      (h _ _)) (h _ _)) (by decide) (by decide)]
  simp only [textsFields_append, textsFields_field?, List.forall_mem_append, Option.map_map,
    forall_mem_field?, Function.comp_apply, texts_str, texts_num, clean_str, clean_num_iff,
    clean_receipts_iff]
  have hreceipts : (∀ l, st.receipts = some l → ∀ x ∈ l.flatMap fun e => e.receipt.numbers,
      isNumeral (JsNumber.toText x) = true) ↔
      ∀ x ∈ (st.receipts.getD []).flatMap fun e => e.receipt.numbers,
        isNumeral (JsNumber.toText x) = true := by
    cases st.receipts <;> simp
  simp only [hreceipts, StoragePayload.numbers, List.forall_mem_append, Option.mem_toList,
    implies_true, and_true]
  constructor
  · rintro ⟨⟨⟨hcapacity, hconcurrency⟩, hlist⟩, hperiod⟩
    exact ⟨⟨⟨hcapacity, hconcurrency⟩, hperiod⟩, hlist⟩
  · rintro ⟨⟨⟨hcapacity, hconcurrency⟩, hperiod⟩, hlist⟩
    exact ⟨⟨⟨hcapacity, hconcurrency⟩, hlist⟩, hperiod⟩

theorem clean_object_iff (b : Block F) : Clean (.obj (object b).values) ↔ Archivable b := by
  have h := keys_field? (F := F)
  have hnumbers : (∀ st, b.storage = some st → ∀ x ∈ st.numbers,
      isNumeral (JsNumber.toText x) = true) ↔
      ∀ x ∈ b.numbers, isNumeral (JsNumber.toText x) = true := by
    unfold Block.numbers
    cases b.storage <;> simp
  rw [values_object, Block.toJson, amountField, clean_texts_iff
    (["accountId", "index", "type", "previousHash", "shard", "timestamp", "balance"] ++
      ["identityCommitment"] ++ ["attestations"] ++ ["recipient"] ++ ["sourceHash"] ++ ["amount"] ++
      ["updates"] ++ ["tokenId"] ++ ["contentRef"] ++ ["nftMeta"] ++ ["recipientName"] ++
      ["senderPub"] ++ ["senderName"] ++ ["storage"] ++ ["accumulatorRoot", "hash", "signature"])
    (keys_append (keys_append (keys_append (keys_append (keys_append (keys_append (keys_append
      (keys_append (keys_append (keys_append (keys_append (keys_append (keys_append (keys_append
        (List.Sublist.refl _) (h _ _)) (h _ _)) (h _ _)) (h _ _)) (h _ _)) (h _ _)) (h _ _))
        (h _ _)) (h _ _)) (h _ _)) (h _ _)) (h _ _)) (h _ _)) (List.Sublist.refl _))
    (by decide) (by decide)]
  simp only [textsFields_append, textsFields_field?, List.forall_mem_append,
    Option.map_map, forall_mem_field?, Function.comp_apply, texts_str, clean_str,
    clean_attestations, clean_record_iff, clean_storage_iff, implies_true, and_true]
  constructor
  · rintro ⟨⟨⟨⟨-, hupdates⟩, hmeta⟩, hstorage⟩, -⟩
    exact ⟨hupdates, hmeta, hnumbers.mp hstorage⟩
  · intro harchivable
    refine ⟨⟨⟨⟨?_, harchivable.updates⟩, harchivable.nftMeta⟩, hnumbers.mpr harchivable.numbers⟩,
      ?_⟩
    · simp [textsFields, texts]
    · simp [textsFields, texts]

/-- What was archived was fetched: the bigints, and all that the block has at any path. -/
structure Agrees (o d : BlockObject) : Prop where
  bigint : ∀ key n, JsMap.find key d = some (.bigint n) ↔ JsMap.find key o = some (.bigint n)
  json : ∀ path, lookup path (.obj d.values) = lookup path (.obj o.values)

/-- The fetched block verifies as the archived one does and is archived as the same bytes. -/
structure Interchangeable (P : Primitives F) (o d : BlockObject) : Prop where
  contentHash : d.computeContentHash P = o.computeContentHash P
  verifies : d.verifyBlock P = o.verifyBlock P
  signed : d.verifyBlockSignature P = o.verifyBlockSignature P
  bytes : encodeBlock d = encodeBlock o

/-- What is fetched of a block verifies as the block does, whatever the block holds; it has all
of it when the block can be archived. -/
theorem fetch_block (P : Primitives F) (p : Platform) (b : Block F) :
    ∃ d, decodeBlock p (encodeBlock (object b)) = some d ∧ Interchangeable P (object b) d ∧
      (Agrees (object b) d ↔ Archivable b) := by
  obtain ⟨d, hdecode, hvalues, hfind⟩ := decodeBlock_encodeBlock (bigints_object b) p
  have hfetched : Fetched (object b) d := by
    intro key hkey
    rw [hfind, if_neg hkey]
  have hbigint : ∀ key n, JsMap.find key d = some (.bigint n) ↔
      JsMap.find key (object b) = some (.bigint n) := by
    intro key n
    rw [hfind]
    by_cases hkey : key = PROTO
    · have hnone : JsMap.find key (object b) ≠ some (.bigint n) := by
        intro h
        rcases (bigints_object b).other key n h with rfl | rfl
        · exact absurd hkey (by decide)
        · exact absurd hkey (by decide)
      rw [if_pos hkey]
      exact iff_of_false (by simp) hnone
    · rw [if_neg hkey]
      cases JsMap.find key (object b) with
      | none => simp
      | some v => cases v <;> simp [Property.archived]
  have hbytes : encodeBlock d = encodeBlock (object b) := by
    rw [encodeBlock, hvalues, canonicalJson_archived, encodeBlock]
  refine ⟨d, hdecode, ⟨hfetched.computeContentHash P, hfetched.verifyBlock P,
    hfetched.verifyBlockSignature P, hbytes⟩, ?_⟩
  rw [← clean_object_iff, ← lookup_archived_iff, ← hvalues]
  exact ⟨fun h => h.json, fun hjson => ⟨hbigint, hjson⟩⟩

/-- A block comes back whole from its archived bytes exactly when no record of it has a property
named `__proto__` and all its numbers are finite. -/
theorem archive_round_trip (P : Primitives F) (p : Platform) (b : Block F) :
    (∃ d, decodeBlock p (encodeBlock (object b)) = some d ∧ Agrees (object b) d ∧
      Interchangeable P (object b) d) ↔ Archivable b := by
  obtain ⟨d, hdecode, hsame, hiff⟩ := fetch_block P p b
  constructor
  · rintro ⟨d', hdecode', hagrees, -⟩
    rw [hdecode] at hdecode'
    cases hdecode'
    exact hiff.mp hagrees
  · exact fun h => ⟨d, hdecode, hiff.mpr h, hsame⟩

/-- A relay's copy of a block verifies for whoever fetches it as the block itself does, and is
archived again as the same bytes, whatever the block holds. -/
theorem fetched_block_verifies (P : Primitives F) (p : Platform) (b : Block F)
    (hjson : P.encodeJson (canonicalContent b.toBlockContent).sortValue =
      utf8ToBytes (canonicalJson (texts (canonicalContent b.toBlockContent)))) :
    ∃ d, decodeBlock p (encodeBlock (object b)) = some d ∧
      d.verifyBlock P = some (verifyBlock P b) ∧ encodeBlock d = encodeBlock (object b) := by
  obtain ⟨d, hdecode, hsame, -⟩ := fetch_block P p b
  refine ⟨d, hdecode, ?_, hsame.bytes⟩
  have hhash : (object b).computeContentHash P = computeContentHash P b.toBlockContent := by
    rw [BlockObject.computeContentHash, canonicalContent_object, computeContentHash, hashJson,
      hjson]
  rw [hsame.verifies, BlockObject.verifyBlock, (copies_object b).hash, hhash,
    verifyBlockSignature_object, verifyBlock]
  by_cases h : computeContentHash P b.toBlockContent = b.hash
  · simp [h]
  · simp [h, Ne.symm h]

end

/-- An update that sets a name and, by a property that `JSON.parse` makes, `__proto__`. -/
def protoUpdate : Block Rat where
  accountId := "carol"
  index := 1
  type := .update
  previousHash := GENESIS_PREV
  shard := 0
  timestamp := 0
  balance := 1000000
  updates := some [("__proto__", "x"), ("username", "carol")]
  accumulatorRoot := "root"
  hash := "hash"
  signature := "sig"

/-- They write the content of that update as JSON. -/
def protoWriter : Primitives Rat where
  sha256 := id
  encodeJson _ := utf8ToBytes (canonicalJson (texts (canonicalContent protoUpdate.toBlockContent)))
  sign _ _ := none
  verify _ _ _ := true
  vrfVerify _ _ _ := none

theorem proto_verifies : ∃ d,
    decodeBlock ⟨fun _ => "", fun _ => none⟩ (encodeBlock (object protoUpdate)) = some d ∧
      d.verifyBlock protoWriter = some (verifyBlock protoWriter protoUpdate) ∧
      encodeBlock d = encodeBlock (object protoUpdate) :=
  fetched_block_verifies protoWriter ⟨fun _ => "", fun _ => none⟩ protoUpdate
    (by simp only [protoWriter])

theorem proto_dropped : ¬ ∀ (P : Primitives Rat) (p : Platform) (b : Block Rat),
    ∃ d, decodeBlock p (encodeBlock (object b)) = some d ∧ Agrees (object b) d ∧
      Interchangeable P (object b) d := by
  intro h
  have P : Primitives Rat := ⟨id, fun _ => [], fun _ _ => none, fun _ _ _ => false,
    fun _ _ _ => none⟩
  have p : Platform := ⟨fun _ => "", fun _ => none⟩
  obtain ⟨d, hdecode, hagrees, -⟩ := h P p protoUpdate
  obtain ⟨d', hdecode', -, hiff⟩ := fetch_block P p protoUpdate
  rw [hdecode] at hdecode'
  cases hdecode'
  exact (hiff.mp hagrees).updates _ rfl (by decide)

end NeuronWeb.BlockArchive
