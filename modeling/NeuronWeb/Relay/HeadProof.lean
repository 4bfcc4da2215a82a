/-
  Relay/HeadProof: the proofs that the archive builds
  (`relay/server.ts`, GET `/head-proof` and GET `/token`).

  The relay builds a second time what a ledger builds from a chain that it holds: it filters the
  rows of an account, sorts them, wants every height once and runs the accumulator over their
  hashes.

  `/token` looks for the mint first, among the rows of every account, and takes the first row
  that mints the token.
-/
import NeuronWeb.Ledger.PacketCompleteness
import NeuronWeb.Relay.NetworkArchive

set_option autoImplicit false

namespace NeuronWeb

variable {F : Type}

/-! ## Rows and answers -/

/-- The fields of a block that its row repeats. -/
structure RowFields where
  type : BlockType
  recipient : Option Hex
  tokenId : Option Hex

def fieldsOf (b : Block F) : RowFields := ⟨b.type, b.recipient, b.tokenId⟩

/-- A row of `engineBlockStore`; `fields` is missing from old rows. -/
structure ArchiveRow (F : Type) extends StoredBlock F where
  fields : Option RowFields

namespace ArchiveRow

/-- The row that `archiveEngineBlock` writes of a block. -/
def ofBlock (b : Block F) (network : String) : ArchiveRow F :=
  ⟨⟨b.hash, b.accountId, b.index, b.shard, network, b⟩, some (fieldsOf b)⟩

/-- The row after `/token` has read its type. -/
def filled (r : ArchiveRow F) : ArchiveRow F :=
  { r with fields := some (r.fields.getD (fieldsOf r.block)) }

/-- The row says of its block what the block says. -/
structure Repeats (r : ArchiveRow F) : Prop where
  hash : r.hash = r.block.hash
  accountId : r.accountId = r.block.accountId
  index : r.index = r.block.index
  fields : ∀ fields, r.fields = some fields → fields = fieldsOf r.block

end ArchiveRow

theorem ArchiveRow.Repeats.filled {r : ArchiveRow F} (h : r.Repeats) : r.filled.Repeats where
  hash := h.hash
  accountId := h.accountId
  index := h.index
  fields := by
    intro fields heq
    replace heq : some (r.fields.getD (fieldsOf r.block)) = some fields := heq
    rw [← Option.some.inj heq]
    cases hfields : r.fields with
    | none => rfl
    | some fields => exact h.fields fields hfields

/-- The archive of a relay. -/
structure ProofRelay (F : Type) where
  engineBlockStore : JsMap Hex (ArchiveRow F)

namespace ProofRelay

def new : ProofRelay F := ⟨.empty⟩

/-- `archiveEngineBlock(blockHex, network)`; the block is `none` where the hex does not decode. -/
def archiveEngineBlock (P : Primitives F) (s : ProofRelay F) (block : Option (Block F))
    (network : String) : ProofRelay F :=
  match block with
  | none => s
  | some block =>
    if verifyBlock P block = false then s
    else if s.engineBlockStore.has block.hash then s
    else ⟨s.engineBlockStore.set block.hash (.ofBlock block network)⟩

/-- One row of `loadEngineBlocks`; `none` where its `blockHex` does not decode. -/
def loadRow (P : Primitives F) (s : ProofRelay F) (row : Option (ArchiveRow F)) : ProofRelay F :=
  match row with
  | none => s
  | some row =>
    if row.block.hash ≠ row.hash ∨ verifyBlock P row.block = false then s
    else ⟨s.engineBlockStore.set row.hash row⟩

/-- `engineBlockStore.values()`. -/
def rows (s : ProofRelay F) : List (StoredBlock F) :=
  s.engineBlockStore.values.map ArchiveRow.toStoredBlock

/-- The rows of an account, by height. -/
def chainOf (s : ProofRelay F) (network : Network) (pub : String) : List (StoredBlock F) :=
  NetworkArchive.sortByIndex
    (s.rows.filter fun r => r.accountId = pub && r.network = network.name)

/-- The loop of `/token`: it fills the rows of the network in up to the first one that mints
the token. -/
def findMint (network : Network) (tokenId : String) :
    List (Hex × ArchiveRow F) → JsMap Hex (ArchiveRow F) →
      JsMap Hex (ArchiveRow F) × Option (ArchiveRow F)
  | [], store => (store, none)
  | (hash, r) :: rest, store =>
    if r.network ≠ network.name then findMint network tokenId rest store
    else
      let fields := r.fields.getD (fieldsOf r.block)
      let store := store.set hash r.filled
      if fields.type = .nftMint ∧ fields.tokenId = some tokenId then (store, some r.filled)
      else findMint network tokenId rest store

section Answers

variable [JsNumber F] (P : Primitives F) (s : ProofRelay F)

/-- GET `/head-proof`. -/
def headProof (network : Network) (pub send : String) : NetworkArchive.Answer F :=
  let rows := s.chainOf network pub
  NetworkArchive.answerPacket P rows (rows.find? fun r => r.hash = send)
    "chain incomplete or send unknown"

/-- GET `/token`. -/
def token (network : Network) (tokenId : String) : ProofRelay F × NetworkArchive.Answer F :=
  let found := findMint network tokenId s.engineBlockStore.entries s.engineBlockStore
  let s : ProofRelay F := ⟨found.1⟩
  let rows := match found.2 with
    | some mintRow => s.chainOf network mintRow.accountId
    | none => []
  (s, NetworkArchive.answerPacket P rows (found.2.map ArchiveRow.toStoredBlock)
    "token unknown or minter chain incomplete")

end Answers

/-- What happens to the archive: `loadEngineBlocks` comes to a row, gossip brings a block, or
somebody asks for a token. -/
inductive Input (F : Type) where
  | load (row : Option (ArchiveRow F))
  | gossip (block : Option (Block F)) (network : String)
  | token (network : Network) (tokenId : String)

def step [JsNumber F] (P : Primitives F) (s : ProofRelay F) : Input F → ProofRelay F
  | .load row => s.loadRow P row
  | .gossip block network => s.archiveEngineBlock P block network
  | .token network tokenId => (s.token P network tokenId).1

/-! ## Agreement with a ledger -/

/-- What reaches the relay of the account is the chain; a row of the file is one that the
relay has written, with the fields of its block or without. -/
def Brings (x : Hex) (chain : List (Block F)) : Input F → Prop
  | .load row => ∀ r, row = some r → r.Repeats ∧ (r.block.accountId = x → r.block ∈ chain)
  | .gossip block _ => ∀ b, block = some b → b.accountId = x → b ∈ chain
  | .token _ _ => True

/-- Every block of the chain is in the archive, on the network. -/
def Archived (s : ProofRelay F) (network : Network) (chain : List (Block F)) : Prop :=
  ∀ b ∈ chain, ∃ row, s.engineBlockStore.get? b.hash = some row ∧ row.network = network.name

/-- The answers of the relay about the account are the proofs that the ledger builds, and the
verifiers accept them. -/
structure ProofsAgree [JsNumber F] (P : Primitives F) (policy : QuorumPolicy) (network : Network)
    (x : Hex) (L : EngineLedger F) (s : ProofRelay F) : Prop where
  head_proof : ∀ send ∈ L.getAccountChain x, send.type = .send ∨ send.type = .nftSend →
    ∃ packet, L.buildCounterpartyPacket P x send.hash = some (some packet) ∧
      s.headProof P network x send.hash = .packet ⟨packet.openBlock, packet.headBlock,
        packet.sendBlock, packet.openInclusionProof, packet.sendInclusionProof⟩ ∧
      ∀ recipient, send.recipient = some recipient →
        verifyPacket P packet recipient policy = some none
  token : ∀ mint ∈ L.getAccountChain x, mint.type = .nftMint →
    ∀ tokenId, mint.tokenId = some tokenId →
    ∃ proof, L.buildMintProof P x tokenId = some (some proof) ∧
      (s.token P network tokenId).2 = .packet ⟨proof.openBlock, proof.headBlock,
        proof.mintBlock, proof.openInclusionProof, proof.mintInclusionProof⟩ ∧
      verifyMintProof P proof tokenId policy = some none

/-- The block mints the token. -/
def mints (tokenId : String) (b : Block F) : Bool :=
  decide (b.type = .nftMint ∧ b.tokenId = some tokenId)

/-- Any other mint of the token on the network was archived after this one. -/
def ArchivedFirst (network : Network) (tokenId : String) (mint : Block F) (s : ProofRelay F) :
    Prop :=
  ∀ before row after, s.rows = before ++ row :: after → row.network = network.name →
    mints tokenId row.block = true → row.block ≠ mint →
      ∃ r ∈ before, r.network = network.name ∧ r.block = mint

/-- The first mint of the chain was archived first, for every token that the chain mints. -/
def MintsFirst (network : Network) (chain : List (Block F)) (s : ProofRelay F) : Prop :=
  ∀ tokenId mint, chain.find? (mints tokenId) = some mint → ArchivedFirst network tokenId mint s

/-! ## The rows of the archive -/

/-- Every row is under its hash, says what its block says and is authentic; the rows of the
account are blocks of the chain. -/
def Copied (P : Primitives F) (x : Hex) (chain : List (Block F)) (s : ProofRelay F) : Prop :=
  ∀ hash row, s.engineBlockStore.get? hash = some row → hash = row.hash ∧ row.Repeats ∧
    verifyBlock P row.block = true ∧ (row.block.accountId = x → row.block ∈ chain)

section Scan

variable {network : Network} {tokenId : String}

/-- The row says that its block mints the token. -/
def mintsRow (network : Network) (tokenId : String) (r : ArchiveRow F) : Bool :=
  let fields := r.fields.getD (fieldsOf r.block)
  r.network = network.name && decide (fields.type = .nftMint ∧ fields.tokenId = some tokenId)

variable {rest : List (Hex × ArchiveRow F)}

variable {store : JsMap Hex (ArchiveRow F)}

theorem findMint_cons_foreign {hash : Hex} {r : ArchiveRow F} (h : r.network ≠ network.name) :
    findMint network tokenId ((hash, r) :: rest) store = findMint network tokenId rest store := by
  rw [findMint]
  exact if_pos h

theorem findMint_cons_mint {hash : Hex} {r : ArchiveRow F} (h : mintsRow network tokenId r = true) :
    findMint network tokenId ((hash, r) :: rest) store =
      (store.set hash r.filled, some r.filled) := by
  obtain ⟨hnetwork, hmint⟩ := Bool.and_eq_true_iff.mp h
  rw [findMint, if_neg (fun hne => hne (of_decide_eq_true hnetwork))]
  exact if_pos (of_decide_eq_true hmint)

theorem findMint_cons_other {hash : Hex} {r : ArchiveRow F} (hnetwork : r.network = network.name)
    (h : mintsRow network tokenId r = false) :
    findMint network tokenId ((hash, r) :: rest) store =
      findMint network tokenId rest (store.set hash r.filled) := by
  rw [findMint, if_neg (fun hne => hne hnetwork)]
  refine if_neg fun hmint => ?_
  have hyes : mintsRow network tokenId r = true :=
    Bool.and_eq_true_iff.mpr ⟨decide_eq_true hnetwork, decide_eq_true hmint⟩
  rw [h] at hyes
  cases hyes

/-- The loop finds the first row of the network that mints the token, and all that it does to
the rows before is to fill them in. -/
theorem findMint_spec (l : List (Hex × ArchiveRow F)) (store : JsMap Hex (ArchiveRow F))
    (hl : ∀ e ∈ l, store.get? e.1 = some e.2) (hnodup : (l.map Prod.fst).Nodup) :
    (findMint network tokenId l store).2 =
        ((l.map Prod.snd).find? (mintsRow network tokenId)).map ArchiveRow.filled ∧
      (findMint network tokenId l store).1.values.map ArchiveRow.toStoredBlock =
        store.values.map ArchiveRow.toStoredBlock ∧
      ∀ hash row, (findMint network tokenId l store).1.get? hash = some row →
        ∃ old, store.get? hash = some old ∧ (row = old ∨ row = old.filled) := by
  induction l generalizing store with
  | nil => exact ⟨rfl, rfl, fun hash row hget => ⟨row, hget, .inl rfl⟩⟩
  | cons e rest ih =>
    obtain ⟨hash, r⟩ := e
    rw [List.map_cons, List.nodup_cons] at hnodup
    have hr : store.get? hash = some r := hl _ List.mem_cons_self
    have hrest : ∀ e ∈ rest, store.get? e.1 = some e.2 :=
      fun e he => hl e (List.mem_cons_of_mem _ he)
    have hkept : (store.set hash r.filled).values.map ArchiveRow.toStoredBlock =
        store.values.map ArchiveRow.toStoredBlock := JsMap.map_values_set hr rfl
    have hfilled : ∀ j row, (store.set hash r.filled).get? j = some row →
        ∃ old, store.get? j = some old ∧ (row = old ∨ row = old.filled) := by
      intro j row hget
      rw [JsMap.get?_set] at hget
      split at hget
      · next heq => exact ⟨r, heq ▸ hr, .inr (Option.some.inj hget).symm⟩
      · exact ⟨row, hget, .inl rfl⟩
    by_cases hnetwork : r.network = network.name
    · cases hmint : mintsRow network tokenId r with
      | true =>
        rw [findMint_cons_mint hmint, List.map_cons, List.find?_cons_of_pos hmint]
        exact ⟨rfl, hkept, hfilled⟩
      | false =>
        rw [findMint_cons_other hnetwork hmint, List.map_cons,
          List.find?_cons_of_neg (by simp [hmint])]
        obtain ⟨hfound, hvalues, hrows⟩ := ih (store.set hash r.filled) (by
          intro e he
          have hne : hash ≠ e.1 := by
            intro heq
            rw [heq] at hnodup
            exact hnodup.1 (List.mem_map.mpr ⟨e, he, rfl⟩)
          rw [JsMap.get?_set_ne _ _ hne]
          exact hrest e he) hnodup.2
        refine ⟨hfound, hvalues.trans hkept, ?_⟩
        intro j row hget
        obtain ⟨mid, hmid, hrow⟩ := hrows j row hget
        obtain ⟨old, hold, hfrom⟩ := hfilled j mid hmid
        refine ⟨old, hold, ?_⟩
        rcases hrow with rfl | rfl <;> rcases hfrom with rfl | rfl
        · exact .inl rfl
        · exact .inr rfl
        · exact .inr rfl
        · exact .inr rfl
    · have hforeign : mintsRow network tokenId r = false :=
        Bool.and_eq_false_iff.mpr (.inl (decide_eq_false hnetwork))
      rw [findMint_cons_foreign hnetwork, List.map_cons,
        List.find?_cons_of_neg (by simp [hforeign])]
      exact ih store hrest hnodup.2

theorem findMint_store (s : ProofRelay F) (network : Network) (tokenId : String) :
    (findMint network tokenId s.engineBlockStore.entries s.engineBlockStore).2 =
        (s.engineBlockStore.values.find? (mintsRow network tokenId)).map ArchiveRow.filled ∧
      (findMint network tokenId s.engineBlockStore.entries s.engineBlockStore).1.values.map
          ArchiveRow.toStoredBlock = s.rows ∧
      ∀ hash row, (findMint network tokenId s.engineBlockStore.entries s.engineBlockStore).1.get?
          hash = some row →
        ∃ old, s.engineBlockStore.get? hash = some old ∧ (row = old ∨ row = old.filled) :=
  findMint_spec s.engineBlockStore.entries s.engineBlockStore
    (fun _ he => (JsMap.get?_eq_some_iff _ _ _).mpr he) s.engineBlockStore.nodup

end Scan

/-! ## Runs of the archive -/

section Runs

variable {P : Primitives F} {x : Hex} {chain : List (Block F)} {s : ProofRelay F}

theorem copied_new : Copied P x chain new := fun _ _ hget => by cases hget

theorem Copied.set (h : Copied P x chain s) {row : ArchiveRow F} (hrow : row.Repeats)
    (hverified : verifyBlock P row.block = true)
    (hmem : row.block.accountId = x → row.block ∈ chain) {hash : Hex} (hhash : hash = row.hash) :
    Copied P x chain ⟨s.engineBlockStore.set hash row⟩ := by
  intro j r hget
  replace hget : (s.engineBlockStore.set hash row).get? j = some r := hget
  rw [JsMap.get?_set] at hget
  split at hget
  · next heq =>
      rw [← heq, ← Option.some.inj hget]
      exact ⟨hhash, hrow, hverified, hmem⟩
  · exact h j r hget

variable [JsNumber F]

omit [JsNumber F] in
theorem block_ofBlock (b : Block F) (network : String) :
    (ArchiveRow.ofBlock b network).block = b := rfl

omit [JsNumber F] in
theorem repeats_ofBlock (b : Block F) (network : String) :
    (ArchiveRow.ofBlock b network).Repeats :=
  ⟨rfl, rfl, rfl, fun _ heq => (Option.some.inj heq).symm⟩

theorem Copied.step (h : Copied P x chain s) {input : Input F} (hbrings : Brings x chain input) :
    Copied P x chain (s.step P input) := by
  cases input with
  | load row =>
    cases row with
    | none => exact h
    | some row =>
      obtain ⟨hrow, hmem⟩ := hbrings row rfl
      show Copied P x chain (s.loadRow P (some row))
      unfold loadRow
      dsimp only
      split
      · exact h
      · next hvalid =>
          have hverified : verifyBlock P row.block = true := by
            by_contra hbad
            exact hvalid (.inr (by simpa using hbad))
          exact h.set hrow hverified hmem rfl
  | gossip block network =>
    cases block with
    | none => exact h
    | some block =>
      have hmem := hbrings block rfl
      show Copied P x chain (s.archiveEngineBlock P (some block) network)
      unfold archiveEngineBlock
      dsimp only
      split
      · exact h
      · next hverified =>
          split
          · exact h
          · exact h.set (repeats_ofBlock block network)
              (by rw [block_ofBlock]; exact (Bool.not_eq_false _).mp hverified)
              (by rw [block_ofBlock]; exact hmem) rfl
  | token network tokenId =>
    obtain ⟨-, -, hrows⟩ := findMint_store s network tokenId
    intro hash row hget
    obtain ⟨old, hold, hrow⟩ := hrows hash row hget
    obtain ⟨hhash, hrepeats, hverified, hmem⟩ := h hash old hold
    rcases hrow with rfl | rfl
    · exact ⟨hhash, hrepeats, hverified, hmem⟩
    · exact ⟨hhash, hrepeats.filled, hverified, hmem⟩

theorem copied_final (inputs : List (Input F)) (hbrings : ∀ input ∈ inputs, Brings x chain input) :
    Copied P x chain (Run.final (step P) new inputs) :=
  Run.invariant_final (C := fun _ input => Brings x chain input)
    (fun _ _ hs hinput => hs.step hinput) copied_new
    (Run.stepsMeet_of_mem (fun input hmem _ => hbrings input hmem) _)

end Runs

/-! ## The rows of a chain -/

section Chain

variable {P : Primitives F} {x : Hex} {chain : List (Block F)} {s : ProofRelay F}
  {network : Network}

theorem index_lt (h : SignedChain P x chain) : chain.Pairwise fun a b => a.index < b.index := by
  refine List.pairwise_iff_getElem.mpr fun i j hi hj hij => ?_
  rw [h.height i _ (List.getElem?_eq_getElem hi), h.height j _ (List.getElem?_eq_getElem hj)]
  exact Int.ofNat_lt.mpr hij

theorem eq_of_index_eq (h : SignedChain P x chain) {a b : Block F} (ha : a ∈ chain)
    (hb : b ∈ chain) (hindex : a.index = b.index) : a = b := by
  obtain ⟨i, hi⟩ := List.getElem?_of_mem ha
  obtain ⟨j, hj⟩ := List.getElem?_of_mem hb
  rw [h.height i a hi, h.height j b hj] at hindex
  rw [Int.ofNat_inj.mp hindex, hj] at hi
  exact (Option.some.inj hi).symm

theorem mem_rows {r : StoredBlock F} (hr : r ∈ s.rows) :
    ∃ hash row, s.engineBlockStore.get? hash = some row ∧ row.toStoredBlock = r := by
  obtain ⟨row, hrow, rfl⟩ := List.mem_map.mp hr
  obtain ⟨e, he, rfl⟩ := List.mem_map.mp hrow
  exact ⟨e.1, e.2, (JsMap.get?_eq_some_iff _ _ _).mpr he, rfl⟩

theorem mem_rows_of_get? {hash : Hex} {row : ArchiveRow F}
    (h : s.engineBlockStore.get? hash = some row) : row.toStoredBlock ∈ s.rows :=
  List.mem_map_of_mem (List.mem_map.mpr ⟨_, (JsMap.get?_eq_some_iff _ _ _).mp h, rfl⟩)

theorem mem_rows_of_chainOf {r : StoredBlock F} (hr : r ∈ s.chainOf network x) : r ∈ s.rows :=
  (List.mem_filter.mp (List.mem_mergeSort.mp hr)).1

theorem Copied.row (h : Copied P x chain s) {r : StoredBlock F} (hr : r ∈ s.rows) :
    r.hash = r.block.hash ∧ r.accountId = r.block.accountId ∧ r.index = r.block.index ∧
      verifyBlock P r.block = true ∧ (r.block.accountId = x → r.block ∈ chain) := by
  obtain ⟨hash, row, hget, rfl⟩ := mem_rows hr
  obtain ⟨-, hrepeats, hverified, hmem⟩ := h hash row hget
  exact ⟨hrepeats.hash, hrepeats.accountId, hrepeats.index, hverified, hmem⟩

theorem Copied.nodup (h : Copied P x chain s) : (s.rows.map StoredBlock.block).Nodup := by
  have hkeys : (s.rows.map StoredBlock.block).map (fun b => b.hash) =
      s.engineBlockStore.entries.map Prod.fst := by
    rw [rows, JsMap.values, List.map_map, List.map_map, List.map_map]
    refine List.map_congr_left fun e he => ?_
    obtain ⟨hhash, hrepeats, -⟩ := h e.1 e.2 ((JsMap.get?_eq_some_iff _ _ _).mpr he)
    exact (hhash.trans hrepeats.hash).symm
  have hnodup : ((s.rows.map StoredBlock.block).map fun b => b.hash).Nodup := by
    rw [hkeys]
    exact s.engineBlockStore.nodup
  exact hnodup.of_map _

theorem Copied.block_eq (hP : CollisionFree P) (hsigned : SignedChain P x chain)
    (h : Copied P x chain s) {r : StoredBlock F} (hr : r ∈ s.rows) {b : Block F} (hb : b ∈ chain)
    (hhash : r.hash = b.hash) : r.block = b := by
  obtain ⟨hrow, -, -, hverified, hmem⟩ := h.row hr
  have hsame : r.block.hash = b.hash := hrow.symm.trans hhash
  have haccount : r.block.accountId = x := by
    have hheader := hP.header_eq_of_hash_eq (((verifyBlock_iff P _).mp hverified).1.trans
      (hsame.trans ((verifyBlock_iff P _).mp (hsigned.verified b hb)).1.symm))
    exact hheader.1.trans (hsigned.account b hb)
  exact EngineLedger.eq_of_hash_eq hP hsigned (hmem haccount) hb hsame

theorem Copied.archived (hP : CollisionFree P) (hsigned : SignedChain P x chain)
    (h : Copied P x chain s) (harchived : Archived s network chain) {b : Block F}
    (hb : b ∈ chain) : ∃ r ∈ s.rows, r.block = b ∧ r.network = network.name := by
  obtain ⟨row, hget, hnetwork⟩ := harchived b hb
  have hrow := mem_rows_of_get? hget
  have hhash : row.hash = b.hash := (h b.hash row hget).1.symm
  exact ⟨row.toStoredBlock, hrow, h.block_eq hP hsigned hrow hb hhash, hnetwork⟩

/-- The sorted rows of the account are the chain. -/
theorem map_block_chainOf (hP : CollisionFree P) (hsigned : SignedChain P x chain)
    (h : Copied P x chain s) (harchived : Archived s network chain) :
    (s.chainOf network x).map StoredBlock.block = chain := by
  have hperm : ((s.chainOf network x).map StoredBlock.block).Perm chain := by
    refine ((List.mergeSort_perm _ _).map StoredBlock.block).trans ?_
    refine (List.perm_ext_iff_of_nodup ?_ ?_).mpr fun b => ?_
    · exact h.nodup.sublist (List.filter_sublist.map _)
    · exact (index_lt hsigned).imp fun hlt heq => by simp [heq] at hlt
    · constructor
      · intro hb
        obtain ⟨r, hr, rfl⟩ := List.mem_map.mp hb
        obtain ⟨hrow, hof⟩ := List.mem_filter.mp hr
        obtain ⟨-, haccount, -, -, hmem⟩ := h.row hrow
        exact hmem (haccount.symm.trans (of_decide_eq_true (Bool.and_eq_true_iff.mp hof).1))
      · intro hb
        obtain ⟨r, hr, rfl, hnetwork⟩ := h.archived hP hsigned harchived hb
        refine List.mem_map_of_mem (List.mem_filter.mpr ⟨hr, ?_⟩)
        rw [(h.row hr).2.1, hsigned.account _ hb, hnetwork]
        simp
  have hsorted : ((s.chainOf network x).map StoredBlock.block).Pairwise
      fun a b => a.index ≤ b.index := by
    have htrans : ∀ a b c : StoredBlock F, decide (a.index ≤ b.index) = true →
        decide (b.index ≤ c.index) = true → decide (a.index ≤ c.index) = true :=
      fun a b c hab hbc =>
        decide_eq_true (Int.le_trans (of_decide_eq_true hab) (of_decide_eq_true hbc))
    have htotal : ∀ a b : StoredBlock F,
        (decide (a.index ≤ b.index) || decide (b.index ≤ a.index)) = true := by
      intro a b
      simp [Int.le_total a.index b.index]
    have hrows : (s.chainOf network x).Pairwise
        fun a b => decide (a.index ≤ b.index) = true :=
      List.pairwise_mergeSort htrans htotal _
    refine List.pairwise_map.mpr (hrows.imp_of_mem fun ha hb hle => ?_)
    rw [← (h.row (mem_rows_of_chainOf ha)).2.2.1, ← (h.row (mem_rows_of_chainOf hb)).2.2.1]
    exact of_decide_eq_true hle
  refine hperm.eq_of_pairwise ?_ hsorted ((index_lt hsigned).imp fun hlt => Int.le_of_lt hlt)
  intro a b ha hb hab hba
  exact eq_of_index_eq hsigned (hperm.mem_iff.mp ha) hb (Int.le_antisymm hab hba)

end Chain

/-! ## The packet of a chain -/

section Packet

variable {P : Primitives F} {x : Hex} {chain : List (Block F)} {rows : List (StoredBlock F)}

theorem proveInChain_parts {wanted : Block F → Bool} {proof : ChainProof F}
    (h : proveInChain P chain wanted = some (some proof)) :
    chain.head? = some proof.openBlock ∧ chain.getLast? = some proof.headBlock ∧
      chain.find? wanted = some proof.block ∧
      ∃ acc i, accumulate chain = some acc ∧ chain[i]? = some proof.block ∧
        acc.proofHex P 0 = some proof.openInclusionProof ∧
        acc.proofHex P (i : Nat) = some proof.blockInclusionProof := by
  unfold proveInChain at h
  split at h
  · next openBlock headBlock hopen hhead =>
      split at h
      · cases h
      · next i hi =>
          simp only [Option.bind_eq_bind, Option.bind_eq_some_iff, Option.some.injEq] at h
          obtain ⟨acc, hacc, openProof, hopenProof, block, hblock, proof', hproof, rfl⟩ := h
          refine ⟨hopen, hhead, ?_, acc, i, hacc, hblock, hopenProof, hproof⟩
          obtain ⟨hlt, hwanted, hfirst⟩ := List.findIdx?_eq_some_iff_getElem.mp hi
          obtain ⟨hlt', hat⟩ := List.getElem?_eq_some_iff.mp hblock
          refine List.find?_eq_some_iff_getElem.mpr ⟨hat ▸ hwanted, i, hlt, hat, ?_⟩
          intro j hj
          simpa using hfirst j hj
  · cases h

theorem contiguous_rows (hsigned : SignedChain P x chain)
    (hmap : rows.map StoredBlock.block = chain) (hindex : ∀ r ∈ rows, r.index = r.block.index)
    (hne : chain ≠ []) : NetworkArchive.contiguous rows = true := by
  unfold NetworkArchive.contiguous
  rw [Bool.and_eq_true, List.all_eq_true]
  constructor
  · cases rows with
    | nil => exact absurd hmap.symm hne
    | cons r rest => rfl
  · rintro ⟨r, i⟩ hr
    have hat : rows[i]? = some r := List.mem_zipIdx_iff_getElem?.mp hr
    have hblock : chain[i]? = some r.block := by
      rw [← hmap, List.getElem?_map, hat]
      rfl
    refine decide_eq_true ?_
    rw [hindex r (List.mem_of_getElem? hat)]
    exact hsigned.height i r.block hblock

theorem foldlM_rows (hmap : rows.map StoredBlock.block = chain)
    (hhash : ∀ r ∈ rows, r.hash = r.block.hash) :
    rows.foldlM (fun (acc : AccountAccumulator) r => acc.append r.hash) [] = accumulate chain := by
  have hall : ∀ (l : List (StoredBlock F)) (acc : AccountAccumulator),
      (∀ r ∈ l, r.hash = r.block.hash) →
      l.foldlM (fun (acc : AccountAccumulator) r => acc.append r.hash) acc =
        (l.map StoredBlock.block).foldlM (fun (acc : AccountAccumulator) b => acc.append b.hash)
          acc := by
    intro l
    induction l with
    | nil => exact fun _ _ => rfl
    | cons r rest ih =>
      intro acc hl
      rw [List.map_cons, List.foldlM_cons, List.foldlM_cons, hl r List.mem_cons_self]
      congr 1
      funext acc'
      exact ih acc' fun r' hr' => hl r' (List.mem_cons_of_mem _ hr')
  rw [← hmap]
  exact hall rows [] hhash

theorem packetOf_rows (hsigned : SignedChain P x chain)
    (hmap : rows.map StoredBlock.block = chain) (hhash : ∀ r ∈ rows, r.hash = r.block.hash)
    {wanted : Block F → Bool} {proof : ChainProof F}
    (hproof : proveInChain P chain wanted = some (some proof)) {item : StoredBlock F}
    (hitem : item.block = proof.block) (hindex : item.index = item.block.index) :
    NetworkArchive.packetOf P rows item = some ⟨proof.openBlock, proof.headBlock, proof.block,
      proof.openInclusionProof, proof.blockInclusionProof⟩ := by
  obtain ⟨hopen, hhead, -, acc, i, hacc, hblock, hopenProof, hblockProof⟩ :=
    proveInChain_parts hproof
  rw [← hmap, List.head?_map] at hopen
  rw [← hmap, List.getLast?_map] at hhead
  obtain ⟨opening, hopening, hopenBlock⟩ := Option.map_eq_some_iff.mp hopen
  obtain ⟨head, hlast, hheadBlock⟩ := Option.map_eq_some_iff.mp hhead
  have hat : item.index = (i : Int) := by
    rw [hindex, hitem]
    exact hsigned.height i _ hblock
  unfold NetworkArchive.packetOf
  rw [hopening, hlast, foldlM_rows hmap hhash, hacc, hat]
  simp only [Option.bind_eq_bind, Option.bind_some, hopenProof, hblockProof, hopenBlock,
    hheadBlock, hitem]
  rfl

end Packet

/-! ## The answers -/

theorem mem_before_of_find? {α : Type} {l before after : List α} {p : α → Bool} {a b : α}
    (h : l.find? p = some a) (hl : l = before ++ b :: after) (hb : p b = true) (hne : b ≠ a) :
    a ∈ before := by
  rw [hl, List.find?_append] at h
  cases hbefore : before.find? p with
  | some c =>
    rw [hbefore, Option.some_or] at h
    rw [← Option.some.inj h]
    exact List.mem_of_find?_eq_some hbefore
  | none =>
    rw [hbefore, Option.none_or, List.find?_cons_of_pos hb] at h
    exact absurd (Option.some.inj h) hne

theorem find?_congr_mem {α : Type} {l : List α} {p q : α → Bool} (h : ∀ a ∈ l, p a = q a) :
    l.find? p = l.find? q := by
  induction l with
  | nil => rfl
  | cons a rest ih =>
    rw [List.find?_cons, List.find?_cons, h a List.mem_cons_self,
      ih fun b hb => h b (List.mem_cons_of_mem _ hb)]

section Answers

variable {P : Primitives F} {x : Hex} {chain : List (Block F)} {s : ProofRelay F}
  {network : Network} {tokenId : String} {proof : ChainProof F}

theorem answerPacket_chain (hP : CollisionFree P) (hsigned : SignedChain P x chain)
    (hcopied : Copied P x chain s) (harchived : Archived s network chain)
    {wanted : Block F → Bool} (hproof : proveInChain P chain wanted = some (some proof))
    {item : StoredBlock F} (hmem : item ∈ s.rows) (hitem : item.block = proof.block)
    (message : String) :
    NetworkArchive.answerPacket P (s.chainOf network x) (some item) message =
      .packet ⟨proof.openBlock, proof.headBlock, proof.block, proof.openInclusionProof,
        proof.blockInclusionProof⟩ := by
  have hmap := map_block_chainOf hP hsigned hcopied harchived
  have hne : chain ≠ [] := by
    rintro rfl
    cases (proveInChain_parts hproof).1
  have hcontiguous := contiguous_rows hsigned hmap
    (fun r hr => (hcopied.row (mem_rows_of_chainOf hr)).2.2.1) hne
  have hpacket := packetOf_rows hsigned hmap
    (fun r hr => (hcopied.row (mem_rows_of_chainOf hr)).1) hproof hitem (hcopied.row hmem).2.2.1
  simp [NetworkArchive.answerPacket, hcontiguous, hpacket]

/-- `/head-proof` answers with the proof that a holder of the chain builds. -/
theorem headProof_eq (hP : CollisionFree P) (hsigned : SignedChain P x chain)
    (hcopied : Copied P x chain s) (harchived : Archived s network chain) {send : Block F}
    (hsend : send ∈ chain)
    (hproof : proveInChain P chain (fun b => b.hash = send.hash) = some (some proof)) :
    s.headProof P network x send.hash = .packet ⟨proof.openBlock, proof.headBlock, proof.block,
      proof.openInclusionProof, proof.blockInclusionProof⟩ := by
  have hmap := map_block_chainOf hP hsigned hcopied harchived
  have hblock : proof.block = send := by
    obtain ⟨-, -, hfirst, -⟩ := proveInChain_parts hproof
    have hhash : proof.block.hash = send.hash := by simpa using List.find?_some hfirst
    exact EngineLedger.eq_of_hash_eq hP hsigned (List.mem_of_find?_eq_some hfirst) hsend
      hhash
  obtain ⟨r, hr, hrow⟩ : ∃ r ∈ s.chainOf network x, r.block = send := by
    rw [← hmap] at hsend
    obtain ⟨r, hr, hrow⟩ := List.mem_map.mp hsend
    exact ⟨r, hr, hrow⟩
  obtain ⟨item, hitem⟩ : ∃ item, (s.chainOf network x).find? (fun r => r.hash = send.hash) =
      some item := by
    refine Option.isSome_iff_exists.mp (List.find?_isSome.mpr ⟨r, hr, ?_⟩)
    rw [(hcopied.row (mem_rows_of_chainOf hr)).1, hrow]
    exact decide_eq_true rfl
  have hmem := List.mem_of_find?_eq_some hitem
  have hsame : item.block = send := by
    have hin : item.block ∈ chain := by
      rw [← hmap]
      exact List.mem_map_of_mem hmem
    have hhash : item.hash = send.hash := by simpa using List.find?_some hitem
    refine EngineLedger.eq_of_hash_eq hP hsigned hin hsend ?_
    rw [← (hcopied.row (mem_rows_of_chainOf hmem)).1]
    exact hhash
  unfold headProof
  dsimp only
  rw [hitem]
  exact answerPacket_chain hP hsigned hcopied harchived hproof (mem_rows_of_chainOf hmem)
    (hsame.trans hblock.symm) _

/-- The row that `/token` takes. -/
def mintRow (s : ProofRelay F) (network : Network) (tokenId : String) : Option (StoredBlock F) :=
  s.rows.find? fun r => r.network = network.name && mints tokenId r.block

theorem findMint_eq_mintRow (network : Network) (tokenId : String)
    (hcopied : Copied P x chain s) :
    (findMint network tokenId s.engineBlockStore.entries s.engineBlockStore).2.map
      ArchiveRow.toStoredBlock = s.mintRow network tokenId := by
  obtain ⟨hfound, -, -⟩ := findMint_store s network tokenId
  rw [hfound, mintRow, rows, List.find?_map, Option.map_map]
  have hsame : s.engineBlockStore.values.find? (mintsRow network tokenId) =
      s.engineBlockStore.values.find?
        ((fun r => r.network = network.name && mints tokenId r.block) ∘
          ArchiveRow.toStoredBlock) := by
    refine find?_congr_mem fun r hr => ?_
    obtain ⟨e, he, rfl⟩ := List.mem_map.mp hr
    obtain ⟨-, hrepeats, -⟩ := hcopied e.1 e.2 ((JsMap.get?_eq_some_iff _ _ _).mpr he)
    have hfields : e.2.fields.getD (fieldsOf e.2.block) = fieldsOf e.2.block := by
      cases hsome : e.2.fields with
      | none => rfl
      | some fields => exact hrepeats.fields fields hsome
    rw [mintsRow, hfields]
    rfl
  rw [hsame]
  rfl

theorem token_of_none (hcopied : Copied P x chain s) (h : s.mintRow network tokenId = none) :
    (s.token P network tokenId).2 = .error 404 "token unknown or minter chain incomplete" := by
  have hfound := findMint_eq_mintRow network tokenId hcopied
  rw [h] at hfound
  unfold token
  dsimp only
  rw [hfound]
  rfl

theorem token_of_some (hcopied : Copied P x chain s) {row : StoredBlock F}
    (h : s.mintRow network tokenId = some row) : (s.token P network tokenId).2 =
      NetworkArchive.answerPacket P (s.chainOf network row.accountId) (some row)
        "token unknown or minter chain incomplete" := by
  obtain ⟨-, hrows, -⟩ := findMint_store s network tokenId
  have hfound := findMint_eq_mintRow network tokenId hcopied
  rw [h] at hfound
  obtain ⟨found, hsome, rfl⟩ := Option.map_eq_some_iff.mp hfound
  unfold token chainOf
  dsimp only
  rw [hsome, ← hrows]
  rfl

theorem eq_item_of_packetOf {rows : List (StoredBlock F)} {item : StoredBlock F}
    {packet : ArchivePacket F} (h : NetworkArchive.packetOf P rows item = some packet) :
    packet.item = item.block := by
  unfold NetworkArchive.packetOf at h
  simp only [Option.bind_eq_bind, Option.bind_eq_some_iff] at h
  obtain ⟨opening, -, head, -, acc, -, openProof, -, itemProof, -, hpacket⟩ := h
  rw [← Option.some.inj hpacket]

/-- `/token` answers with the proof of the mint exactly when it takes the row of the mint. -/
theorem token_packet_iff (hP : CollisionFree P) (hsigned : SignedChain P x chain)
    (hcopied : Copied P x chain s) (harchived : Archived s network chain)
    (hproof : proveInChain P chain (mints tokenId) = some (some proof)) :
    (s.token P network tokenId).2 = .packet ⟨proof.openBlock, proof.headBlock, proof.block,
        proof.openInclusionProof, proof.blockInclusionProof⟩ ↔
      ∃ row, s.mintRow network tokenId = some row ∧ row.block = proof.block := by
  constructor
  · intro hanswer
    cases hrow : s.mintRow network tokenId with
    | none =>
      rw [token_of_none hcopied hrow] at hanswer
      cases hanswer
    | some row =>
      refine ⟨row, rfl, ?_⟩
      rw [token_of_some hcopied hrow] at hanswer
      unfold NetworkArchive.answerPacket at hanswer
      dsimp only at hanswer
      split at hanswer
      · cases hanswer
      · cases hpacket : NetworkArchive.packetOf P (s.chainOf network row.accountId) row with
        | none =>
          rw [hpacket] at hanswer
          cases hanswer
        | some packet =>
          rw [hpacket] at hanswer
          have hsame := NetworkArchive.Answer.packet.inj hanswer
          rw [← eq_item_of_packetOf hpacket, hsame]
  · rintro ⟨row, hrow, hblock⟩
    have hmem : row ∈ s.rows := List.mem_of_find?_eq_some hrow
    have haccount : row.accountId = x := by
      obtain ⟨-, -, hfirst, -⟩ := proveInChain_parts hproof
      rw [(hcopied.row hmem).2.1, hblock]
      exact hsigned.account _ (List.mem_of_find?_eq_some hfirst)
    rw [token_of_some hcopied hrow, haccount]
    exact answerPacket_chain hP hsigned hcopied harchived hproof hmem hblock _

theorem mintRow_iff {mint : Block F} (hP : CollisionFree P) (hsigned : SignedChain P x chain)
    (hcopied : Copied P x chain s) (harchived : Archived s network chain)
    (hmint : chain.find? (mints tokenId) = some mint) :
    (∃ row, s.mintRow network tokenId = some row ∧ row.block = mint) ↔
      ArchivedFirst network tokenId mint s := by
  constructor
  · rintro ⟨first, hfirst, hblock⟩ before row after hrows hnetwork hmints hne
    have hmatches : (row.network = network.name && mints tokenId row.block) = true := by
      rw [hnetwork, hmints]
      simp
    refine ⟨first, mem_before_of_find? hfirst hrows hmatches ?_, ?_, hblock⟩
    · rintro rfl
      exact hne hblock
    · have hfound := List.find?_some hfirst
      exact of_decide_eq_true (Bool.and_eq_true_iff.mp hfound).1
  · intro hbefore
    obtain ⟨r, hr, hblock, hnetwork⟩ :=
      hcopied.archived hP hsigned harchived (List.mem_of_find?_eq_some hmint)
    have hmatches : ∀ r : StoredBlock F, r.network = network.name → r.block = mint →
        (r.network = network.name && mints tokenId r.block) = true := by
      intro r hnetwork hblock
      rw [hnetwork, hblock, List.find?_some hmint]
      simp
    obtain ⟨row, hrow⟩ : ∃ row, s.mintRow network tokenId = some row :=
      Option.isSome_iff_exists.mp (List.find?_isSome.mpr ⟨r, hr, hmatches r hnetwork hblock⟩)
    refine ⟨row, hrow, ?_⟩
    by_contra hne
    obtain ⟨hfound, before, after, hrows, hnone⟩ := List.find?_eq_some_iff_append.mp hrow
    obtain ⟨hfoundNetwork, hfoundMints⟩ := Bool.and_eq_true_iff.mp hfound
    obtain ⟨r', hr', hnetwork', hblock'⟩ := hbefore before row after hrows
      (of_decide_eq_true hfoundNetwork) hfoundMints hne
    have hfalse := hnone r' hr'
    rw [hmatches r' hnetwork' hblock'] at hfalse
    cases hfalse

end Answers

/-! ## Agreement -/

section Agreement

variable {P : Primitives F} {policy : QuorumPolicy} {network : Network} {x : Hex}
  {L : EngineLedger F} {s : ProofRelay F}

theorem buildCounterpartyPacket_of_chain {hash : Hex} (hne : L.getAccountChain x ≠ []) :
    L.buildCounterpartyPacket P x hash = buildPacketFromChain P (L.getAccountChain x) hash := by
  unfold EngineLedger.buildCounterpartyPacket
  cases hget : L.held.get? x with
  | none =>
    rw [EngineLedger.getAccountChain, hget] at hne
    exact absurd rfl hne
  | some h =>
    rw [EngineLedger.getAccountChain_of_held hget] at hne ⊢
    exact if_neg (mt List.length_eq_zero_iff.mp hne)

theorem buildMintProof_of_chain {tokenId : Hex} (hne : L.getAccountChain x ≠ []) :
    L.buildMintProof P x tokenId = buildMintProofFromChain P (L.getAccountChain x) tokenId := by
  unfold EngineLedger.buildMintProof
  cases hget : L.held.get? x with
  | none =>
    rw [EngineLedger.getAccountChain, hget] at hne
    exact absurd rfl hne
  | some h =>
    rw [EngineLedger.getAccountChain_of_held hget] at hne ⊢
    exact if_neg (mt List.length_eq_zero_iff.mp hne)

theorem buildMintProof_eq {tokenId : Hex} {proof : ChainProof F}
    (h : proveInChain P (L.getAccountChain x) (mints tokenId) = some (some proof)) :
    L.buildMintProof P x tokenId = some (some ⟨proof.openBlock, proof.headBlock,
      proof.openInclusionProof, proof.block, proof.blockInclusionProof⟩) := by
  have hne : L.getAccountChain x ≠ [] := by
    intro hnil
    rw [hnil] at h
    cases (proveInChain_parts h).1
  rw [buildMintProof_of_chain hne, buildMintProofFromChain]
  unfold mints at h
  rw [h]
  rfl

theorem buildCounterpartyPacket_eq {hash : Hex} {proof : ChainProof F}
    (h : proveInChain P (L.getAccountChain x) (fun b => b.hash = hash) = some (some proof)) :
    L.buildCounterpartyPacket P x hash = some (some ⟨proof.openBlock, proof.headBlock,
      proof.openInclusionProof, proof.block, proof.blockInclusionProof⟩) := by
  have hne : L.getAccountChain x ≠ [] := by
    intro hnil
    rw [hnil] at h
    cases (proveInChain_parts h).1
  rw [buildCounterpartyPacket_of_chain hne, buildPacketFromChain, h]
  rfl

variable [JsNumber F]

/-- On a chain that the owner signed and the archive has. -/
theorem agree_iff_mintsFirst (hP : CollisionFree P)
    (hsigned : SignedChain P x (L.getAccountChain x))
    (hcontent : ∀ b ∈ L.getAccountChain x, b.type = .nftMint → truthy b.contentRef = true)
    (hpolicy : ∀ genesis, (L.getAccountChain x).head? = some genesis →
      SatisfiesPolicy P policy genesis)
    (hcopied : Copied P x (L.getAccountChain x) s)
    (harchived : Archived s network (L.getAccountChain x)) :
    ProofsAgree P policy network x L s ↔ MintsFirst network (L.getAccountChain x) s := by
  have hopen : ∀ b ∈ L.getAccountChain x, ∃ genesis,
      (L.getAccountChain x).head? = some genesis := by
    intro b hb
    obtain ⟨genesis, rest, hchain⟩ := List.exists_cons_of_ne_nil (List.ne_nil_of_mem hb)
    exact ⟨genesis, by rw [hchain]; rfl⟩
  constructor
  · intro hagree tokenId mint hmint
    have hmints : mints tokenId mint = true := List.find?_some hmint
    have hmem := List.mem_of_find?_eq_some hmint
    obtain ⟨genesis, hgenesis⟩ := hopen mint hmem
    obtain ⟨proof, hbuilt, -, -, -⟩ :=
      hsigned.proveInChain hgenesis (hpolicy genesis hgenesis) (mints tokenId) hmem hmints
    have hfirst : proof.block = mint := by
      obtain ⟨-, -, hfirst, -⟩ := proveInChain_parts hbuilt
      rw [hmint] at hfirst
      exact (Option.some.inj hfirst).symm
    obtain ⟨htype, htoken⟩ := of_decide_eq_true hmints
    obtain ⟨served, hserved, hanswer, -⟩ := hagree.token mint hmem htype tokenId htoken
    rw [buildMintProof_eq hbuilt] at hserved
    rw [← Option.some.inj (Option.some.inj hserved)] at hanswer
    refine (mintRow_iff hP hsigned hcopied harchived hmint).mp ?_
    rw [← hfirst]
    exact (token_packet_iff hP hsigned hcopied harchived hbuilt).mp hanswer
  · intro hfirst
    constructor
    · intro send hsend htype
      obtain ⟨genesis, hgenesis⟩ := hopen send hsend
      obtain ⟨proof, hbuilt, hmem, hwanted, haccepted⟩ :=
        hsigned.proveInChain hgenesis (hpolicy genesis hgenesis)
          (fun b => b.hash = send.hash) hsend (by simp)
      have hblock : proof.block = send :=
        EngineLedger.eq_of_hash_eq hP hsigned hmem hsend (by simpa using hwanted)
      refine ⟨_, buildCounterpartyPacket_eq hbuilt,
        headProof_eq hP hsigned hcopied harchived hsend hbuilt, ?_⟩
      intro recipient hrecipient
      rw [hblock] at haccepted
      rcases htype with htype | htype
      · simp [verifyPacket, hblock, htype, hrecipient, haccepted]
      · simp [verifyPacket, hblock, htype, hrecipient, haccepted]
    · intro mint hmint htype tokenId htoken
      obtain ⟨genesis, hgenesis⟩ := hopen mint hmint
      obtain ⟨proof, hbuilt, hmem, hwanted, haccepted⟩ :=
        hsigned.proveInChain hgenesis (hpolicy genesis hgenesis) (mints tokenId) hmint
          (decide_eq_true ⟨htype, htoken⟩)
      obtain ⟨hfirstType, hfirstToken⟩ := of_decide_eq_true hwanted
      have htruthy := hcontent proof.block hmem hfirstType
      obtain ⟨-, -, hfind, -⟩ := proveInChain_parts hbuilt
      refine ⟨_, buildMintProof_eq hbuilt, ?_, ?_⟩
      · exact (token_packet_iff hP hsigned hcopied harchived hbuilt).mpr
          ((mintRow_iff hP hsigned hcopied harchived hfind).mpr (hfirst tokenId _ hfind))
      · simp [verifyMintProof, hfirstType, hfirstToken, htruthy, haccepted]

end Agreement

theorem chain_of_calls [JsNumber F] (P : Primitives F) (cfg : LedgerConfig) (x : Hex)
    (calls : List (EngineLedger.Call F)) (hcalls : ∀ c ∈ calls, EngineLedger.OwnerSigned P x c) :
    SignedChain P x
        ((Run.final (EngineLedger.step P cfg) (EngineLedger.new P) calls).getAccountChain x) ∧
      ∀ b ∈ (Run.final (EngineLedger.step P cfg) (EngineLedger.new P) calls).getAccountChain x,
        b.type = .nftMint → truthy b.contentRef = true :=
  EngineLedger.committed_chain <| Run.invariant_final
    (C := fun _ c => EngineLedger.OwnerSigned P x c)
    (I := fun L : EngineLedger F => ∀ h, L.held.get? x = some h → EngineLedger.Committed P x h)
    (fun _ _ hL hc => EngineLedger.committed_step hL hc) (fun h hget => by cases hget)
    (Run.stepsMeet_of_mem (fun c hc _ => hcalls c hc) _)

/-- Once the chain that a ledger accepted is in the archive, by whatever road and beside
whatever else, the relay answers with the ledger's proofs exactly when no foreign mint of a
token came in before the mint of the chain. -/
theorem proofs_agree_iff [JsNumber F] (P : Primitives F) (cfg : LedgerConfig)
    (hP : CollisionFree P) (policy : QuorumPolicy) (network : Network) (x : Hex)
    (calls : List (EngineLedger.Call F)) (hcalls : ∀ c ∈ calls, EngineLedger.OwnerSigned P x c)
    (hpolicy : ∀ genesis,
      ((Run.final (EngineLedger.step P cfg) (EngineLedger.new P) calls).getAccountChain x).head? =
        some genesis → SatisfiesPolicy P policy genesis)
    (inputs : List (Input F))
    (hbrings : ∀ input ∈ inputs, Brings x
      ((Run.final (EngineLedger.step P cfg) (EngineLedger.new P) calls).getAccountChain x) input)
    (harchived : Archived (Run.final (step P) new inputs) network
      ((Run.final (EngineLedger.step P cfg) (EngineLedger.new P) calls).getAccountChain x)) :
    ProofsAgree P policy network x (Run.final (EngineLedger.step P cfg) (EngineLedger.new P) calls)
        (Run.final (step P) new inputs) ↔
      MintsFirst network
        ((Run.final (EngineLedger.step P cfg) (EngineLedger.new P) calls).getAccountChain x)
        (Run.final (step P) new inputs) := by
  have hchain := chain_of_calls P cfg x calls hcalls
  exact agree_iff_mintsFirst hP hchain.1 hchain.2 hpolicy (copied_final inputs hbrings) harchived

/-! ## A chain with a mint -/

/-- Alice's chain, with a mint and a payment. -/
def mintChain : List (Block Rat) :=
  (Run.final (EngineLedger.step Sample.transparent Sample.config)
    (EngineLedger.new Sample.transparent) EngineLedger.mintAndPay).getAccountChain "alice"

/-- The token of the mint. -/
def aliceToken : Hex := EngineLedger.nftTokenId Sample.transparent "alice" 1 "song"

/-- The mint and the payment stand in an old file; gossip then brings the chain from the head
down, and somebody asks for the token. -/
def mintArrivals : List (Input Rat) :=
  (mintChain.drop 1).map (fun b => .load (some { ArchiveRow.ofBlock b "testnet" with
    fields := none })) ++
  mintChain.reverse.map (fun b => .gossip (some b) "testnet") ++
  [.token .testnet aliceToken]

/-- A mint of Alice's token under another account, with nothing before it. -/
def strayMint : Block Rat :=
  let content : BlockContent Rat :=
    { index := 1, accountId := "mallory", previousHash := "", type := .nftMint
      timestamp := 0, balance := 0, shard := 0
      tokenId := some aliceToken
      contentRef := some "noise" }
  let hash := computeContentHash Sample.transparent content
  { toBlockContent := content, accumulatorRoot := "", hash
    signature := Sample.signature (blockSigningMessage hash "") "mallory" }

theorem brings_mintArrivals : ∀ input ∈ mintArrivals, Brings "alice" mintChain input := by
  intro input hinput
  rcases List.mem_append.mp hinput with hinput | hinput
  · rcases List.mem_append.mp hinput with hinput | hinput
    · obtain ⟨b, hb, rfl⟩ := List.mem_map.mp hinput
      rintro r hr
      rw [← Option.some.inj hr]
      exact ⟨⟨rfl, rfl, rfl, fun _ heq => by cases heq⟩, fun _ => List.mem_of_mem_drop hb⟩
    · obtain ⟨b, hb, rfl⟩ := List.mem_map.mp hinput
      rintro b' hb' -
      rw [← Option.some.inj hb']
      exact List.mem_reverse.mp hb
  · rw [List.mem_singleton.mp hinput]
    trivial

theorem satisfiesPolicy_mintChain : ∀ genesis, mintChain.head? = some genesis →
    SatisfiesPolicy Sample.transparent Sample.config.identityPolicy genesis := by
  intro genesis hgenesis
  have hcheck : mintChain.head?.all (fun g => g.identityCommitment.any fun commitment =>
      decide (commitment ≠ "") && g.attestations.any fun attestations =>
        (checkQuorum Sample.transparent attestations commitment
          Sample.config.identityPolicy).ok) = true := by decide +kernel
  rw [hgenesis, Option.all_some, Option.any_eq_true] at hcheck
  obtain ⟨commitment, hcommitment, hcheck⟩ := hcheck
  obtain ⟨hne, hquorum⟩ := Bool.and_eq_true_iff.mp hcheck
  obtain ⟨attestations, hattestations, hok⟩ := (Option.any_eq_true ..).mp hquorum
  exact ⟨commitment, attestations, hcommitment, of_decide_eq_true hne, hattestations, hok⟩

theorem archived_of_all {s : ProofRelay F} {network : Network} {chain : List (Block F)}
    (h : chain.all (fun b => (s.engineBlockStore.get? b.hash).any fun row =>
      row.network = network.name) = true) : Archived s network chain := by
  intro b hb
  obtain ⟨row, hget, hnetwork⟩ := (Option.any_eq_true ..).mp (List.all_eq_true.mp h b hb)
  exact ⟨row, hget, of_decide_eq_true hnetwork⟩

theorem proofs_agree_mintArrivals :
    ProofsAgree Sample.transparent Sample.config.identityPolicy .testnet "alice"
      (Run.final (EngineLedger.step Sample.transparent Sample.config)
        (EngineLedger.new Sample.transparent) EngineLedger.mintAndPay)
      (Run.final (step Sample.transparent) new mintArrivals) := by
  refine (proofs_agree_iff Sample.transparent Sample.config Sample.collisionFree_transparent
    Sample.config.identityPolicy .testnet "alice" EngineLedger.mintAndPay
    EngineLedger.ownerSigned_mintAndPay satisfiesPolicy_mintChain mintArrivals
    brings_mintArrivals (archived_of_all (by decide +kernel))).mpr ?_
  have hchain : mintChain.all (fun b => decide (b.type = .nftMint → mintChain[1]? = some b)) =
      true := by decide +kernel
  have hrows : (Run.final (step Sample.transparent) new mintArrivals).rows.all (fun r =>
      decide (r.block.type = .nftMint → mintChain[1]? = some r.block)) = true := by
    decide +kernel
  intro tokenId mint hmint before row after hsplit hnetwork hmints hne
  have hmintMints : mints tokenId mint = true := List.find?_some hmint
  have hmintType := (of_decide_eq_true hmintMints).1
  have hrowType := (of_decide_eq_true hmints).1
  have hfirst := of_decide_eq_true (List.all_eq_true.mp hchain mint
    (List.mem_of_find?_eq_some hmint)) hmintType
  have hsecond := of_decide_eq_true (List.all_eq_true.mp hrows row
    (by rw [hsplit]; exact List.mem_append_right _ List.mem_cons_self)) hrowType
  rw [hfirst] at hsecond
  exact absurd (Option.some.inj hsecond).symm hne

/-- A mint of Alice's token that comes in before her chain is what `/token` finds. -/
theorem stray_mint_hides_token :
    (∀ c ∈ EngineLedger.mintAndPay, EngineLedger.OwnerSigned Sample.transparent "alice" c) ∧
    (∀ genesis, mintChain.head? = some genesis →
      SatisfiesPolicy Sample.transparent Sample.config.identityPolicy genesis) ∧
    (∀ input ∈ .gossip (some strayMint) "testnet" :: mintArrivals,
      Brings "alice" mintChain input) ∧
    Archived (Run.final (step Sample.transparent) new
      (.gossip (some strayMint) "testnet" :: mintArrivals)) .testnet mintChain ∧
    ¬ ProofsAgree Sample.transparent Sample.config.identityPolicy .testnet "alice"
      (Run.final (EngineLedger.step Sample.transparent Sample.config)
        (EngineLedger.new Sample.transparent) EngineLedger.mintAndPay)
      (Run.final (step Sample.transparent) new
        (.gossip (some strayMint) "testnet" :: mintArrivals)) := by
  have hbrings : ∀ input ∈ .gossip (some strayMint) "testnet" :: mintArrivals,
      Brings "alice" mintChain input := by
    intro input hinput
    rcases List.mem_cons.mp hinput with rfl | hinput
    · intro b hb haccount
      rw [← Option.some.inj hb] at haccount
      exact absurd haccount (by decide)
    · exact brings_mintArrivals input hinput
  have harchived : Archived (Run.final (step Sample.transparent) new
      (.gossip (some strayMint) "testnet" :: mintArrivals)) .testnet mintChain :=
    archived_of_all (by decide +kernel)
  refine ⟨EngineLedger.ownerSigned_mintAndPay, satisfiesPolicy_mintChain, hbrings, harchived, ?_⟩
  have hchain := chain_of_calls Sample.transparent Sample.config "alice" EngineLedger.mintAndPay
    EngineLedger.ownerSigned_mintAndPay
  intro hagree
  have hfirst := (agree_iff_mintsFirst Sample.collisionFree_transparent hchain.1 hchain.2
    satisfiesPolicy_mintChain (copied_final _ hbrings) harchived).mp hagree
  have hstray : (Run.final (step Sample.transparent) new
      (.gossip (some strayMint) "testnet" :: mintArrivals)).rows.head?.any (fun r =>
        decide (r.network = "testnet") && mints aliceToken r.block &&
          decide (r.block.accountId = "mallory")) = true := by decide +kernel
  obtain ⟨row, hrow, hstray⟩ := (Option.any_eq_true ..).mp hstray
  obtain ⟨after, hrows⟩ := List.head?_eq_some_iff.mp hrow
  obtain ⟨hstray, hmallory⟩ := Bool.and_eq_true_iff.mp hstray
  obtain ⟨hnetwork, hmints⟩ := Bool.and_eq_true_iff.mp hstray
  obtain ⟨mint, hmint⟩ : ∃ mint, mintChain.find? (mints aliceToken) = some mint :=
    Option.isSome_iff_exists.mp (by decide +kernel)
  have hne : row.block ≠ mint := by
    intro heq
    have halice := hchain.1.account mint (List.mem_of_find?_eq_some hmint)
    rw [← heq, of_decide_eq_true hmallory] at halice
    exact absurd halice (by decide)
  obtain ⟨r, hr, -⟩ := hfirst aliceToken mint hmint [] row after hrows
    (of_decide_eq_true hnetwork) hmints hne
  cases hr

end ProofRelay

end NeuronWeb
