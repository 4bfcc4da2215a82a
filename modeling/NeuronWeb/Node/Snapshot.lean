/-
  Node/Snapshot: epoch snapshots of a ledger (`core/snapshot.ts`, `network/node.ts`).

  `createSnapshot` hands the blocks to `JSON.stringify` as they are.  A block carries its balance
  as a bigint, which `JSON.stringify` refuses with an exception.  So the snapshot of a ledger that
  holds a block is never made (`createSnapshot_throws`), and a node never publishes one
  (`published_nil`).
-/
import NeuronWeb.Directory.Records
import NeuronWeb.Ledger.PeerAcceptance
import NeuronWeb.Storage.SmokeStore

set_option autoImplicit false

namespace NeuronWeb

variable {F : Type}

/-! ## `JSON.stringify` -/

/-- A value as `JSON.stringify` is given it. -/
inductive JsValue (F : Type) where
  | json (v : Json F)
  | bigint (n : Int)
  | arr (items : List (JsValue F))
  | obj (fields : List (String × JsValue F))

namespace JsValue

mutual

/-- The value that is written; `none` where a bigint makes it throw. -/
def stringify : JsValue F → Option (Json F)
  | .json v => some v
  | .bigint _ => none
  | .arr items => (stringifyItems items).map .arr
  | .obj fields => (stringifyFields fields).map .obj

def stringifyItems : List (JsValue F) → Option (List (Json F))
  | [] => some []
  | v :: rest =>
    match stringify v, stringifyItems rest with
    | some v, some rest => some (v :: rest)
    | _, _ => none

def stringifyFields : List (String × JsValue F) → Option (List (String × Json F))
  | [] => some []
  | (key, v) :: rest =>
    match stringify v, stringifyFields rest with
    | some v, some rest => some ((key, v) :: rest)
    | _, _ => none

end

theorem stringifyItems_eq_none {items : List (JsValue F)} {v : JsValue F} (hv : v ∈ items)
    (hthrows : v.stringify = none) : stringifyItems items = none := by
  induction items with
  | nil => cases hv
  | cons w rest ih =>
    rw [stringifyItems]
    rcases List.mem_cons.mp hv with rfl | hrest
    · rw [hthrows]
    · rw [ih hrest]
      cases w.stringify <;> rfl

theorem stringifyFields_eq_none {fields : List (String × JsValue F)} {key : String}
    {v : JsValue F} (hv : (key, v) ∈ fields) (hthrows : v.stringify = none) :
    stringifyFields fields = none := by
  induction fields with
  | nil => cases hv
  | cons e rest ih =>
    obtain ⟨key', w⟩ := e
    rw [stringifyFields]
    rcases List.mem_cons.mp hv with heq | hrest
    · obtain ⟨-, rfl⟩ := Prod.mk.inj heq
      rw [hthrows]
    · rw [ih hrest]
      cases w.stringify <;> rfl

theorem stringify_obj_eq_none {fields : List (String × JsValue F)} {key : String}
    {v : JsValue F} (hv : (key, v) ∈ fields) (hthrows : v.stringify = none) :
    (JsValue.obj fields).stringify = none := by
  rw [stringify, stringifyFields_eq_none hv hthrows]
  rfl

end JsValue

/-- The fields of a block that are no bigints. -/
def Block.plainFields (b : Block F) : List (String × Json F) :=
  [("accountId", .str b.accountId), ("index", .int b.index), ("type", .str b.type.tag),
    ("previousHash", .str b.previousHash), ("shard", .int b.shard),
    ("timestamp", .int b.timestamp)] ++
  Json.field? "identityCommitment" (b.identityCommitment.map .str) ++
  Json.field? "attestations" (b.attestations.map fun l => .arr (l.map TypedAttestation.toJson)) ++
  Json.field? "recipient" (b.recipient.map .str) ++
  Json.field? "sourceHash" (b.sourceHash.map .str) ++
  Json.field? "updates" (b.updates.map Json.ofRecord) ++
  Json.field? "tokenId" (b.tokenId.map .str) ++
  Json.field? "contentRef" (b.contentRef.map .str) ++
  Json.field? "nftMeta" (b.nftMeta.map Json.ofRecord) ++
  Json.field? "recipientName" (b.recipientName.map .str) ++
  Json.field? "senderPub" (b.senderPub.map .str) ++
  Json.field? "senderName" (b.senderName.map .str) ++
  Json.field? "storage" (b.storage.map StoragePayload.toJson) ++
  [("accumulatorRoot", .str b.accumulatorRoot), ("hash", .str b.hash),
    ("signature", .str b.signature)]

/-- A block as it is held: its balance and its amount are bigints. -/
def Block.toValue (b : Block F) : JsValue F :=
  .obj (b.plainFields.map (fun e => (e.1, .json e.2)) ++
    ("balance", .bigint b.balance) :: (b.amount.map fun n => ("amount", .bigint n)).toList)

def LedgerAccount.toValue (a : LedgerAccount) : JsValue F :=
  .json (.obj [("username", .str a.username), ("pub", .str a.pub)])

theorem Block.stringify_toValue (b : Block F) : b.toValue.stringify = none := by
  have hbigint : (JsValue.bigint b.balance : JsValue F).stringify = none := by
    rw [JsValue.stringify]
  exact JsValue.stringify_obj_eq_none (List.mem_append_right _ List.mem_cons_self) hbigint

/-! ## Snapshots -/

def SNAPSHOT_TRIGGER_BYTES : Int := 1073741824

def SNAPSHOT_VERSION : Int := 1

/-- The platform of a snapshot: gzip, and what `addBlock` and `registerAccount` make of the rows
of a parsed one. -/
structure SnapshotEnv (F : Type) where
  primitives : Primitives F
  compress : Bytes → Bytes
  /-- Unpacked and parsed; `none` when it throws. -/
  parse : Bytes → Option (Json F)
  readAccount : Json F → LedgerAccount
  readBlock : Json F → Block F

structure LedgerSnapshot (F : Type) where
  network : String
  accounts : List LedgerAccount
  blocks : List (Block F)

section Snapshots

variable (E : SnapshotEnv F)

/-- The bytes of a snapshot; `none` when it throws. -/
def createSnapshot (network : String) (accounts : List LedgerAccount) (blocks : List (Block F))
    (epochBlock : Hex) (createdAt : Int) : Option Bytes :=
  let snapshot : JsValue F := .obj [("version", .json (.int SNAPSHOT_VERSION)),
    ("createdAt", .json (.int createdAt)), ("network", .json (.str network)),
    ("epochBlock", .json (.str epochBlock)),
    ("accounts", .arr (accounts.map LedgerAccount.toValue)),
    ("blocks", .arr (blocks.map Block.toValue))]
  snapshot.stringify.map fun json => E.compress (E.primitives.encodeJson json)

def parseSnapshot [JsNumber F] (data : Bytes) : Option (LedgerSnapshot F) :=
  match E.parse data with
  | none => none
  | some snap =>
    match snap.property "version", snap.property "network", snap.property "accounts",
      snap.property "blocks" with
    | some version, some (.str network), some (.arr accounts), some (.arr blocks) =>
      if !version.strictEq (.int SNAPSHOT_VERSION) || network == "" then none
      else some ⟨network, accounts.map E.readAccount, blocks.map E.readBlock⟩
    | _, _, _, _ => none

end Snapshots

theorem createSnapshot_throws (E : SnapshotEnv F) (network : String)
    (accounts : List LedgerAccount) {blocks : List (Block F)} (hblocks : blocks ≠ [])
    (epochBlock : Hex) (createdAt : Int) :
    createSnapshot E network accounts blocks epochBlock createdAt = none := by
  obtain ⟨b, rest, rfl⟩ := List.exists_cons_of_ne_nil hblocks
  have hitems : JsValue.stringifyItems ((b :: rest).map Block.toValue) = none :=
    JsValue.stringifyItems_eq_none List.mem_cons_self b.stringify_toValue
  have harr : (JsValue.arr ((b :: rest).map Block.toValue)).stringify = none := by
    rw [JsValue.stringify, hitems]
    rfl
  have hthrows : ∀ fields : List (String × JsValue F), (JsValue.obj (fields ++
      [("blocks", .arr ((b :: rest).map Block.toValue))])).stringify = none :=
    fun _ => JsValue.stringify_obj_eq_none (List.mem_append_right _ List.mem_cons_self) harr
  exact congrArg (Option.map _) (hthrows [_, _, _, _, _])

/-! ## The node -/

structure SnapshotNode (F : Type) where
  ledger : EngineLedger F
  network : String
  store : SmokeStore
  lastSnapshotBytes : Int
  /-- The CIDs that have been announced, with size and epoch block. -/
  published : List (Cid × Nat × Hex)

namespace SnapshotNode

/-- A node on an empty ledger. -/
def new (P : Primitives F) (network : String) (store : SmokeStore) : SnapshotNode F :=
  ⟨EngineLedger.new P, network, store, 0, []⟩

def estimateBlockchainSizeBytes (L : EngineLedger F) : Int := L.allBlocks.entries.length * 600

/-- The first of the blocks with the latest timestamp. -/
def latest : List (Block F) → Option (Block F)
  | [] => none
  | b :: rest =>
    some (rest.foldl (fun best c => if best.timestamp < c.timestamp then c else best) b)

/-- The call of `createSnapshot` for a ledger. -/
def snapshotOf (E : SnapshotEnv F) (network : String) (L : EngineLedger F) (now : Int) :
    Option Bytes :=
  let blocks := L.allBlocks.values
  createSnapshot E network L.accountsByPub.values blocks
    (((latest blocks).map fun b => b.hash).getD GENESIS_PREV) now

/-- An exception is caught and logged. -/
def maybeCreateSnapshot (E : SnapshotEnv F) (n : SnapshotNode F) (now : Int) : SnapshotNode F :=
  let currentBytes := estimateBlockchainSizeBytes n.ledger
  if currentBytes - n.lastSnapshotBytes < SNAPSHOT_TRIGGER_BYTES then n
  else
    match snapshotOf E n.network n.ledger now with
    | none => n
    | some data =>
      let (store, cid) := SmokeStore.store E.primitives n.store data
      let epochBlock := ((latest n.ledger.allBlocks.values).map fun b => b.hash).getD GENESIS_PREV
      { n with
        store
        lastSnapshotBytes := currentBytes
        published := n.published ++ [(cid, data.length, epochBlock)] }

/-- The blocks one after another, and what the ledger says to each. -/
def addAll [JsNumber F] (P : Primitives F) (now : Int) :
    List (Block F) → EngineLedger F → EngineLedger F × List AddResult
  | [], L => (L, [])
  | b :: rest, L =>
    let (L, result) := EngineLedger.addBlock P L b now
    let (L, results) := addAll P now rest L
    (L, result :: results)

/-- Apply a snapshot to an empty ledger; what the ledger says to its blocks, or `none`. -/
def applySnapshot [JsNumber F] (E : SnapshotEnv F) (n : SnapshotNode F) (data : Bytes)
    (now : Int) : SnapshotNode F × Option (List AddResult) :=
  if !n.ledger.allBlocks.entries.isEmpty then (n, none)
  else
    match parseSnapshot E data with
    | none => (n, none)
    | some snap =>
      if snap.network ≠ n.network then (n, none)
      else
        let ledger := snap.accounts.foldl EngineLedger.registerAccount n.ledger
        let (ledger, results) := addAll E.primitives now snap.blocks ledger
        ({ n with ledger, lastSnapshotBytes := estimateBlockchainSizeBytes ledger },
          some results)

/-! ## No snapshot is ever made -/

section NoSnapshot

variable [JsNumber F] (E : SnapshotEnv F) (cfg : LedgerConfig)

/-- What two ledgers must agree on for a snapshot to have carried the state over. -/
structure SameState (L L' : EngineLedger F) : Prop where
  chains : ∀ x, L'.getAccountChain x = L.getAccountChain x
  balances : ∀ x, L'.getAccountBalance x = L.getAccountBalance x
  unclaimedSends : ∀ hash, L'.unclaimedSends.get? hash = L.unclaimedSends.get? hash
  unclaimedNfts : ∀ hash,
    L'.unclaimedNftTransfers.get? hash = L.unclaimedNftTransfers.get? hash
  nftOwner : ∀ token, L'.nftOwner.get? token = L.nftOwner.get? token
  nftInfo : ∀ token, L'.nftInfo.get? token = L.nftInfo.get? token
  burnedNfts : ∀ token, L'.burnedNfts.has token = L.burnedNfts.has token
  accounts : ∀ pub, L'.accountsByPub.get? pub = L.accountsByPub.get? pub
  providers : L'.providerLedger = L.providerLedger

/-- The snapshot of `L` is made, and applied to an empty ledger it is accepted block by block and
gives the state of `L`. -/
def RoundTrips (network : String) (store : SmokeStore) (made applied : Int)
    (L : EngineLedger F) : Prop :=
  ∃ data, snapshotOf E network L made = some data ∧
    ∃ results, (applySnapshot E (new E.primitives network store) data applied).2 = some results ∧
      (∀ r ∈ results, r = .success) ∧
        SameState L (applySnapshot E (new E.primitives network store) data applied).1.ledger

omit [JsNumber F] in
theorem snapshotOf_eq_none (network : String) {L : EngineLedger F}
    (hblocks : L.allBlocks.entries ≠ []) (now : Int) : snapshotOf E network L now = none := by
  refine createSnapshot_throws E network _ (fun hnil => hblocks ?_) _ now
  exact List.map_eq_nil_iff.mp hnil

/-- The snapshot of a ledger with a block in it does not make the round trip. -/
theorem not_roundTrips (network : String) (store : SmokeStore) (made applied : Int)
    (L : EngineLedger F) (hblocks : L.allBlocks.entries ≠ []) :
    ¬ RoundTrips E network store made applied L := by
  rintro ⟨data, hdata, -⟩
  rw [snapshotOf_eq_none E network hblocks made] at hdata
  cases hdata

/-- What a node does. -/
inductive Input (F : Type) where
  | ledger (call : EngineLedger.Call F)
  | maybeCreateSnapshot (now : Int)
  | applySnapshot (data : Bytes) (now : Int)

def step (n : SnapshotNode F) : Input F → SnapshotNode F
  | .ledger call => { n with ledger := EngineLedger.step E.primitives cfg n.ledger call }
  | .maybeCreateSnapshot now => n.maybeCreateSnapshot E now
  | .applySnapshot data now => (n.applySnapshot E data now).1

/-- Nothing has been announced, and the last size is no debt. -/
structure Silent (n : SnapshotNode F) : Prop where
  published : n.published = []
  lastSnapshotBytes : 0 ≤ n.lastSnapshotBytes

variable {E cfg}

theorem Silent.step {n : SnapshotNode F} (h : n.Silent) (input : Input F) :
    (step E cfg n input).Silent := by
  cases input with
  | ledger call => exact ⟨h.published, h.lastSnapshotBytes⟩
  | maybeCreateSnapshot now =>
    show (n.maybeCreateSnapshot E now).Silent
    unfold maybeCreateSnapshot
    dsimp only
    split
    · exact h
    · rename_i hsize
      -- a node that is due holds blocks
      have hblocks : n.ledger.allBlocks.entries ≠ [] := by
        intro hnil
        have hlast := h.lastSnapshotBytes
        rw [estimateBlockchainSizeBytes, hnil, SNAPSHOT_TRIGGER_BYTES] at hsize
        simp only [List.length_nil] at hsize
        omega
      rw [snapshotOf_eq_none E n.network hblocks now]
      exact h
  | applySnapshot data now =>
    show (n.applySnapshot E data now).1.Silent
    unfold applySnapshot
    split
    · exact h
    · split
      · exact h
      · split
        · exact h
        · refine ⟨h.published, ?_⟩
          show 0 ≤ estimateBlockchainSizeBytes _
          unfold estimateBlockchainSizeBytes
          omega

theorem published_nil (network : String) (store : SmokeStore) (inputs : List (Input F)) :
    (Run.final (SnapshotNode.step E cfg) (new E.primitives network store) inputs).published =
      [] := by
  have hnew : (new E.primitives network store).Silent := ⟨rfl, Int.le_refl 0⟩
  exact (Run.invariant_final (C := fun _ _ => True) (fun n input h _ => h.step input) hnew
    (Run.stepsMeet_of_forall (fun _ _ => trivial) _ _)).published

end NoSnapshot

/-! ## The smallest case -/

/-- No compression, and rows that are read as nothing in particular: they are never reached. -/
def sampleSnapshotEnv : SnapshotEnv Rat where
  primitives := Sample.primitives
  compress data := data
  parse _ := none
  readAccount _ := ⟨"", ""⟩
  readBlock _ := Sample.continuing (EngineLedger.new Sample.primitives)
    (Sample.header (EngineLedger.new Sample.primitives) "alice")

theorem payer_holds_block : EngineLedger.payer.allBlocks.entries ≠ [] := by
  have hlength : EngineLedger.payer.allBlocks.entries.length = 1 := by decide +kernel
  exact List.ne_nil_of_length_pos (hlength ▸ Nat.one_pos)

theorem not_roundTrips_payer : EngineLedger.payer.allBlocks.entries ≠ [] ∧
    ¬ RoundTrips sampleSnapshotEnv "testnet" (SmokeStore.new false) 2 3 EngineLedger.payer :=
  ⟨payer_holds_block, not_roundTrips sampleSnapshotEnv "testnet" _ 2 3 _ payer_holds_block⟩

/-- Alice has opened her account and nobody is frozen, and the snapshot is not made. -/
theorem payer_snapshot_throws :
    Run.Reachable (EngineLedger.step Sample.primitives Sample.config)
        (EngineLedger.new Sample.primitives) EngineLedger.payer ∧
      EngineLedger.payer.equivocated.entries = [] ∧
      EngineLedger.payer.allBlocks.entries ≠ [] ∧
      snapshotOf sampleSnapshotEnv "testnet" EngineLedger.payer 2 = none := by
  refine ⟨⟨EngineLedger.payerRun, rfl⟩, ?_, payer_holds_block,
    snapshotOf_eq_none _ _ payer_holds_block 2⟩
  have hlength : EngineLedger.payer.equivocated.entries.length = 0 := by decide +kernel
  exact List.length_eq_zero_iff.mp hlength

end SnapshotNode

end NeuronWeb
