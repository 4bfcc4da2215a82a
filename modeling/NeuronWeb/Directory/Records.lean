/-
  Directory/Records: account records, from the archive of a relay to a client's ledger
  (`relay/server.ts`, `network/account-resolver.ts`, `network/node.ts`).

  The owner signs four fields of a record, `pub`, `username`, `createdAt` and `faceMapHash`. A
  relay keeps the record of the highest `_version` for each account and answers `/resolve` from
  the registry of the names that it attested, or else from whatever record carries the name.
-/
import NeuronWeb.Relay.FaceGate

set_option autoImplicit false

namespace NeuronWeb

variable {F : Type} [JsNumber F]

/-- What JavaScript makes of a text. -/
structure JsText (F : Type) where
  /-- `Number(s)`. -/
  parse : String → F
  /-- `s.trim()`. -/
  trim : String → String
  /-- `s.toLowerCase()`. -/
  toLowerCase : String → String

/-- `u.trim().toLowerCase()`. -/
def JsText.canonical (T : JsText F) (u : String) : String := T.toLowerCase (T.trim u)

namespace Json

/-- `!v` of a property. -/
def missing (v : Option (Json F)) : Bool := v.all falsy

/-- `Number(v ?? 0)`; `none` when it throws. -/
def numberOrZero (T : JsText F) : Option (Json F) → Option F
  | none | some .null => some (JsNumber.ofInt 0)
  | some v => toNumber T.parse (some v)

/-- `v === w`; two arrays or objects that were parsed apart are never the same one. -/
def strictEq : Json F → Json F → Bool
  | .null, .null => true
  | .bool a, .bool b => a == b
  | .int m, .int n => m == n
  | .int m, .num y => JsNumber.same (JsNumber.ofInt m) y
  | .num x, .int n => JsNumber.same x (JsNumber.ofInt n)
  | .num x, .num y => JsNumber.same x y
  | .str s, .str t => s == t
  | _, _ => false

/-- The object without one of its fields. -/
def without (key : String) : Json F → Json F
  | .obj fields => .obj (fields.filter fun field => field.1 ≠ key)
  | v => v

end Json

/-! ## A record and its signature -/

/-- `accountRecordPayload(acc)`: the exact payload the account owner signs; `none` where a
field cannot be written and it throws. -/
def accountRecordPayload (acc : Json F) : Option String :=
  match Json.written (acc.property "pub"), Json.written (acc.property "username"),
      Json.written (acc.property "createdAt"), Json.written (acc.property "faceMapHash") with
  | some pub, some username, some createdAt, some faceMapHash =>
    some ("account:" ++ pub ++ ":" ++ username ++ ":" ++ createdAt ++ ":" ++ faceMapHash)
  | _, _, _, _ => none

/-- `verifyAccountRecordSig(acc)`: the record carries a valid self-signature by `pub`. -/
def verifyAccountRecordSig (P : Primitives F) (acc : Json F) : Bool :=
  if Json.missing (acc.property "_sig") || Json.missing (acc.property "pub") then false
  else
    match Json.written (acc.property "_sig"), accountRecordPayload acc,
        Json.written (acc.property "pub") with
    | some sig, some payload, some pub => P.verify sig payload pub
    | _, _, _ => false

/-- `Number(acc._version ?? 0)`. -/
def versionOf (T : JsText F) (acc : Json F) : Option F :=
  Json.numberOrZero T (acc.property "_version")

/-- `Number(acc.createdAt ?? 0)`. -/
def createdAtOf (T : JsText F) (acc : Json F) : Option F :=
  Json.numberOrZero T (acc.property "createdAt")

/-- `String(acc.username).toLowerCase()`. -/
def usernameOf (T : JsText F) (acc : Json F) : Option String :=
  (Json.written (acc.property "username")).map T.toLowerCase

/-! ## The archive of a relay -/

/-- `{ ...acc, network }`. -/
structure AccountRow (F : Type) where
  network : Network
  record : Json F

structure DirectoryRelay (F : Type) where
  /-- `${network}:${pub}` → record. -/
  accountStore : JsMap String (AccountRow F)
  usernameRegistry : JsMap String UsernameClaim

def accountKey (network : Network) (pub : String) : String := network.name ++ ":" ++ pub

/-- The archived record is newer than the one that comes in; `true` also where the comparison
throws, since nothing is stored then. -/
def outdated (T : JsText F) (acc existing : Json F) : Bool :=
  match versionOf T acc, versionOf T existing with
  | some v, some w => JsNumber.lt v w
  | _, _ => true

/-- `archiveAccountRecord(acc, network)`: verified, newest wins. -/
def archiveAccountRecord (P : Primitives F) (T : JsText F)
    (accountStore : JsMap String (AccountRow F)) (acc : Json F) (network : Network) :
    JsMap String (AccountRow F) :=
  if Json.missing (acc.property "pub") || Json.missing (acc.property "username") then
    accountStore
  else if verifyAccountRecordSig P acc = false then accountStore
  else
    match Json.written (acc.property "pub") with
    | none => accountStore
    | some pub =>
      let key := accountKey network pub
      if (accountStore.get? key).any fun existing => outdated T acc existing.record then
        accountStore
      else accountStore.set key ⟨network, acc⟩

inductive ResolveQuery where
  | username (username : String)
  | pub (pub : String)

/-- `const { network: _n, ...clean } = record`. -/
def AccountRow.clean (row : AccountRow F) : Json F := row.record.without "network"

/-- The fallback of `/resolve`: the first archived record that carries the name. -/
def scanForName (T : JsText F) (accountStore : JsMap String (AccountRow F)) (network : Network)
    (uname : String) : Option (AccountRow F) :=
  accountStore.values.find? fun row =>
    decide (row.network = network ∧ usernameOf T row.record = some uname)

/-- `/resolve`: the record that a relay answers with. -/
def DirectoryRelay.resolve (T : JsText F) (s : DirectoryRelay F) (network : Network) :
    ResolveQuery → Option (Json F)
  | .pub pub =>
    if pub = "" then none
    else (s.accountStore.get? (accountKey network pub)).map AccountRow.clean
  | .username username =>
    let uname := T.canonical username
    if uname = "" then none
    else
      let attested := (s.usernameRegistry.get? uname).bind fun claim =>
        if claim.accountId = "" then none
        else s.accountStore.get? (accountKey network claim.accountId)
      (attested.or (scanForName T s.accountStore network uname)).map AccountRow.clean

/-! ## The client -/

/-- The request that the client sends for its query. -/
def ResolveQuery.sent (T : JsText F) : ResolveQuery → ResolveQuery
  | .username name => .username (T.canonical name)
  | .pub key => .pub key

/-- An answer that is weighed: it verifies and is about what was asked. -/
def answersQuery (P : Primitives F) (T : JsText F) (query : ResolveQuery) (rec : Json F) : Bool :=
  !Json.missing (rec.property "pub") && !Json.missing (rec.property "username") &&
    verifyAccountRecordSig P rec &&
    match query with
    | .username username => decide (usernameOf T rec = some (T.canonical username))
    | .pub pub => decide (Json.asString (rec.property "pub") = some pub)

/-- `rec.pub === best.pub`. -/
def samePub (rec best : Json F) : Bool :=
  match rec.property "pub", best.property "pub" with
  | some pub, some pub' => Json.strictEq pub pub'
  | _, _ => false

/-- Whether an answer takes the place of the best one so far; `none` where a comparison
throws. -/
def replaces (T : JsText F) (rec best : Json F) : Option Bool :=
  if samePub rec best then
    match versionOf T rec, versionOf T best with
    | some v, some w => some (JsNumber.lt w v)
    | _, _ => none
  else
    match createdAtOf T rec, createdAtOf T best with
    | some v, some w => some (JsNumber.lt w v)
    | _, _ => none

/-- One answer of the loop, `none` for a request that failed. -/
def weigh (P : Primitives F) (T : JsText F) (query : ResolveQuery) (best : Option (Json F))
    (answer : Option (Json F)) : Option (Option (Json F)) :=
  match answer with
  | none => some best
  | some rec =>
    if answersQuery P T query rec then
      match best with
      | none => some (some rec)
      | some held => (replaces T rec held).map fun newer => some (if newer then rec else held)
    else some best

/-- `resolveAccountFromRelays`: the best verified record of the answers, in the order of the
relays; `none` where it throws. -/
def resolveAccountFromRelays (P : Primitives F) (T : JsText F) (query : ResolveQuery)
    (answers : List (Option (Json F))) : Option (Option (Json F)) :=
  answers.foldlM (weigh P T query) none

/-- `looksLikeAccountPub(identifier)`. -/
def looksLikeAccountPub (identifier : String) : Bool := Relay.isAccountId identifier

/-- The account that `resolveAccount` registers; balance and nonce are zero. -/
structure ResolvedAccount (F : Type) where
  username : String
  pub : String
  createdAt : F
  faceMapHash : String
  linkedAnchor : Option String
  pqPub : Option String
  pqKemPub : Option String
  pinSalt : Option String
  pinVerifier : Option String

/-- `v ? String(v) : undefined`. -/
def textIfAny (v : Option (Json F)) : Option (Option String) :=
  if Json.missing v then some none else (Json.written v).map some

/-- The account of a record; `none` where a field cannot be converted and it throws. -/
def accountOf (T : JsText F) (rec : Json F) : Option (ResolvedAccount F) := do
  let username ← Json.written (rec.property "username")
  let pub ← Json.written (rec.property "pub")
  let createdAt ←
    if Json.missing (rec.property "createdAt") then some (JsNumber.ofInt 0)
    else Json.toNumber T.parse (rec.property "createdAt")
  let faceMapHash ← textIfAny (rec.property "faceMapHash")
  let linkedAnchor ← textIfAny (rec.property "linkedAnchor")
  let pqPub ← textIfAny (rec.property "pqPub")
  let pqKemPub ← textIfAny (rec.property "pqKemPub")
  let pinSalt ← textIfAny (rec.property "pinSalt")
  let pinVerifier ← textIfAny (rec.property "pinVerifier")
  return { username, pub, createdAt, faceMapHash := faceMapHash.getD "", linkedAnchor, pqPub,
           pqKemPub, pinSalt, pinVerifier }

structure DirectoryClient (F : Type) where
  network : Network
  localKeys : JsSet String
  accountsByPub : JsMap String (ResolvedAccount F)
  usernameToPub : JsMap String String
  /-- The `accounts` store of the local database. -/
  accounts : JsMap String (Json F)

namespace DirectoryClient

/-- `resolveToPublicKey(identifier)`. -/
def resolveToPublicKey (c : DirectoryClient F) (identifier : String) : Option String :=
  if c.accountsByPub.has identifier then some identifier else c.usernameToPub.get? identifier

/-- `registerAccount(account)`. -/
def registerAccount (c : DirectoryClient F) (account : ResolvedAccount F) : DirectoryClient F :=
  if c.accountsByPub.has account.pub then c
  else
    { c with
      accountsByPub := c.accountsByPub.set account.pub account
      usernameToPub :=
        if account.username = "" then c.usernameToPub
        else c.usernameToPub.set account.username account.pub }

/-- `cacheAccount(record)`, under the account that was registered. -/
def cacheAccount (c : DirectoryClient F) (pub : String) (record : Json F) : DirectoryClient F :=
  { c with accounts := c.accounts.set pub (record.without "faceDescriptor") }

/-- The local answer is not authoritative: the relays are asked. -/
def asks (c : DirectoryClient F) (identifier : String) : Bool :=
  match c.resolveToPublicKey identifier with
  | some known => !(c.localKeys.has known || looksLikeAccountPub identifier)
  | none => true

/-- What is asked for an identifier. -/
def queryFor (T : JsText F) (identifier : String) : ResolveQuery :=
  if looksLikeAccountPub identifier then .pub (T.toLowerCase identifier)
  else .username identifier

/-- `resolveAccount(identifier)` on the answers of the relays. -/
def resolveAccount (P : Primitives F) (T : JsText F) (c : DirectoryClient F)
    (identifier : String) (answers : List (Option (Json F))) : DirectoryClient F :=
  if c.asks identifier then
    match resolveAccountFromRelays P T (queryFor T identifier) answers with
    | some (some rec) =>
      match accountOf T rec with
      | some account => (c.registerAccount account).cacheAccount account.pub rec
      | none => c
    | _ => c
  else c

end DirectoryClient

end NeuronWeb
