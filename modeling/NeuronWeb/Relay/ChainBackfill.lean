/-
  Relay/ChainBackfill: how a relay gets the chains that it lacks from its peers
  (`relay/server.ts`).

  Two questions make a relay ask: a `/head-proof` that it cannot answer, about the account whose
  proof is wanted, and a `/pending-sends` that it has nothing for, about every sender that a
  peer names.

  The two compute the index in different ways. `/head-proof` asks from the start unless the rows
  are contiguous; the other takes the highest index that it holds, so what is missing below
  stays missing (`heals_iff`).
-/
import NeuronWeb.Net.ArchiveBackfill
import NeuronWeb.Relay.HeadProof

set_option autoImplicit false

namespace NeuronWeb

variable {F : Type}

/-- The message on an `/engine-delta-req/` topic. -/
structure EngineDeltaRequest where
  network : Network
  accountId : Hex
  shard : Option Int
  haveIndex : Int
  deriving DecidableEq

/-- The part of a relay that asks its peers for chains. -/
structure BackfillRelay (F : Type) where
  archive : ProofRelay F
  /-- The keys of `accountStore`. -/
  knownAccounts : JsSet String
  backfill : BackfillLimiter
  /-- `ARCHIVE_ENABLED`. -/
  archiveEnabled : Bool
  /-- `PEER_HTTP_BASES` is not empty. -/
  hasPeers : Bool
  /-- `pubsubRef` is set. -/
  pubsubUp : Bool

namespace ProofRelay

/-- A loop over rows for the highest index of those that count. -/
def highestFrom (counts : StoredBlock F → Bool) (start : Int) (rows : List (StoredBlock F)) : Int :=
  rows.foldl (fun highest r => if counts r && decide (highest < r.index) then r.index else highest)
    start

/-- The highest index of an account among the rows, -1 where there are none. -/
def highestIndex (s : ProofRelay F) (network : Network) (accountId : Hex) : Int :=
  highestFrom (fun r => r.network = network.name && r.accountId = accountId) (-1) s.rows

/-- The rows of the network after `/pending-sends` has read their types. -/
def filledIn (s : ProofRelay F) (network : Network) : ProofRelay F :=
  ⟨s.engineBlockStore.mapValues fun r => if r.network = network.name then r.filled else r⟩

/-- A row of the network that sends to the account. -/
def sendTo (network : Network) (pub : String) (r : ArchiveRow F) : Option PendingSend :=
  let fields := r.fields.getD (fieldsOf r.block)
  if r.network = network.name ∧ (fields.type = .send ∨ fields.type = .nftSend) ∧
      fields.recipient = some pub then
    some ⟨r.accountId, r.hash, r.shard, fields.type⟩
  else none

/-- `serveEngineDeltaFromArchive`: the blocks that are published, lowest first. -/
def serveEngineDelta (s : ProofRelay F) (request : EngineDeltaRequest) : List (Block F) :=
  (NetworkArchive.sortByIndex (s.rows.filter fun r =>
    r.accountId = request.accountId && r.network = request.network.name &&
      decide (request.haveIndex < r.index))).map StoredBlock.block

end ProofRelay

namespace BackfillRelay

/-- The key of an inbound question. -/
def inboundKey (network : Network) (pub : String) : String := network.name ++ ":inbound:" ++ pub

section Handlers

variable (P : Primitives F) (s : BackfillRelay F)

/-- `archiveEngineBlock(blockHex, network)`; what is new settles the account's key. -/
def archiveEngineBlock (block : Option (Block F)) (network : String) : BackfillRelay F :=
  if s.archiveEnabled = false then s
  else
    let fresh := block.filter fun b =>
      verifyBlock P b && !s.archive.engineBlockStore.has b.hash
    { s with
      archive := s.archive.archiveEngineBlock P block network
      backfill := match fresh with
        | some b => s.backfill.settle (network ++ ":" ++ b.accountId)
        | none => s.backfill }

/-- `requestArchiveBackfill`, with the request that goes out. -/
def requestArchiveBackfill (network : Network) (accountId : Hex) (haveIndex now : Int) :
    BackfillRelay F × Option EngineDeltaRequest :=
  if s.archiveEnabled = false ∨ accountId = "" then (s, none)
  else if s.pubsubUp = false then (s, none)
  else
    let answer := s.backfill.request (accountKey network accountId) now
    match answer.2 with
    | .refuse _ => ({ s with backfill := answer.1 }, none)
    | .ask _ => ({ s with backfill := answer.1 },
        some ⟨network, accountId, getShard P accountId DEFAULT_NUM_SHARDS, haveIndex⟩)

/-- The part of `requestInboundBackfill` before its fetch; true when the peers are asked. -/
def requestInboundBackfill (network : Network) (pub : String) (now : Int) :
    BackfillRelay F × Bool :=
  if s.archiveEnabled = false ∨ s.hasPeers = false then (s, false)
  else if s.knownAccounts.has (accountKey network pub) = false then (s, false)
  else
    let answer := s.backfill.request (inboundKey network pub) now
    match answer.2 with
    | .refuse _ => ({ s with backfill := answer.1 }, false)
    | .ask _ => ({ s with backfill := answer.1 }, true)

/-- The loop over the senders that a peer has named. -/
def backfillSenders (network : Network) (clock : Hex → Int) :
    List Hex → BackfillRelay F → BackfillRelay F × List EngineDeltaRequest
  | [], s => (s, [])
  | sender :: rest, s =>
    let haveIndex := s.archive.highestIndex network sender
    let asked := s.requestArchiveBackfill P network sender haveIndex (clock sender)
    let others := backfillSenders network clock rest asked.1
    (others.1, asked.2.toList ++ others.2)

/-- The part of `requestInboundBackfill` after its fetch; `sends` are the senders of the answer,
`none` where one is missing. -/
def inboundAnswered (network : Network) (pub : String) (sends : List (Option Hex))
    (clock : Hex → Int) : BackfillRelay F × List EngineDeltaRequest :=
  let senders := (JsSet.addAll .empty (sends.filterMap (Option.filter (· ≠ "")))).keys
  if senders.isEmpty then (s, [])
  else backfillSenders P network clock senders
    { s with backfill := s.backfill.settle (inboundKey network pub) }

/-- GET `/head-proof`, with the request that a miss sends. -/
def headProof (network : Network) (pub send : String) (now : Int) :
    BackfillRelay F × NetworkArchive.Answer F × Option EngineDeltaRequest :=
  let rows := s.archive.chainOf network pub
  let contiguous := NetworkArchive.contiguous rows
  let sendRow := rows.find? fun r => r.hash = send
  let answer := s.archive.headProof P network pub send
  if contiguous = false ∨ sendRow.isNone then
    let haveIndex := if contiguous then (rows.getLast?.map StoredBlock.index).getD (-1) else -1
    let asked := s.requestArchiveBackfill P network pub haveIndex now
    (asked.1, answer, asked.2)
  else (s, answer, none)

/-- GET `/pending-sends`: the highest index of the account and what is sent to it; true when the
peers are asked. -/
def pendingSends (network : Network) (pub : String) (now : Int) :
    BackfillRelay F × Int × List PendingSend × Bool :=
  if pub = "" then (s, -1, [], false)
  else
    let filled := { s with archive := s.archive.filledIn network }
    let headIndex := s.archive.highestIndex network pub
    let sends := s.archive.engineBlockStore.values.filterMap (ProofRelay.sendTo network pub)
    if sends.isEmpty then
      let asked := filled.requestInboundBackfill network pub now
      (asked.1, headIndex, sends, asked.2)
    else (filled, headIndex, sends, false)

end Handlers

/-- What happens to a relay. -/
inductive Event (F : Type) where
  | gossip (block : Option (Block F)) (network : String)
  | token (network : Network) (tokenId : String)
  | headProof (network : Network) (pub send : String) (now : Int)
  | pendingSends (network : Network) (pub : String) (now : Int)
  /-- A peer has answered the question of `requestInboundBackfill`. -/
  | inboundAnswered (network : Network) (pub : String) (sends : List (Option Hex))
      (clock : Hex → Int)

section Step

variable (P : Primitives F)

def step (s : BackfillRelay F) : Event F → BackfillRelay F
  | .gossip block network => s.archiveEngineBlock P block network
  | .token network tokenId => { s with archive := (s.archive.token P network tokenId).1 }
  | .headProof network pub send now => (s.headProof P network pub send now).1
  | .pendingSends network pub now => (s.pendingSends network pub now).1
  | .inboundAnswered network pub sends clock => (s.inboundAnswered P network pub sends clock).1

/-- The requests for chains that a step sends. -/
def requested (s : BackfillRelay F) : Event F → List EngineDeltaRequest
  | .headProof network pub send now => (s.headProof P network pub send now).2.2.toList
  | .inboundAnswered network pub sends clock => (s.inboundAnswered P network pub sends clock).2
  | _ => []

end Step

end BackfillRelay

/-! ## The rows of an archive -/

namespace ProofRelay

section Rows

variable {P : Primitives F} {x : Hex} {chain : List (Block F)} {s : ProofRelay F}
  {network : Network} {b : Block F}

/-- Some row of the archive is of the block. -/
def Has (s : ProofRelay F) (b : Block F) : Prop := ∃ r ∈ s.rows, r.block = b

/-- The blocks of the chain are archived under the network only. -/
def OnNetwork (s : ProofRelay F) (network : Network) (chain : List (Block F)) : Prop :=
  ∀ r ∈ s.rows, r.block ∈ chain → r.network = network.name

/-- No block of the chain is missing below one that is there. -/
def NoGap (s : ProofRelay F) (chain : List (Block F)) : Prop :=
  ∀ r ∈ s.rows, r.block ∈ chain → ∀ b ∈ chain, b.index ≤ r.block.index → s.Has b

theorem rows_filledIn (s : ProofRelay F) (network : Network) :
    (s.filledIn network).rows = s.rows := by
  rw [rows, filledIn, JsMap.values_mapValues, List.map_map, rows]
  refine List.map_congr_left fun r _ => ?_
  rw [Function.comp_apply]
  split <;> rfl

theorem Copied.filledIn (h : Copied P x chain s) (network : Network) :
    Copied P x chain (s.filledIn network) := by
  intro hash row hget
  rw [ProofRelay.filledIn, JsMap.get?_mapValues, Option.map_eq_some_iff] at hget
  obtain ⟨old, hold, hrow⟩ := hget
  obtain ⟨hhash, hrepeats, hrest⟩ := h hash old hold
  split at hrow
  case isTrue =>
    rw [← hrow]
    exact ⟨hhash, hrepeats.filled, hrest⟩
  case isFalse =>
    rw [← hrow]
    exact ⟨hhash, hrepeats, hrest⟩

theorem rows_token (s : ProofRelay F) (network : Network) (tokenId : String) :
    (s.token P network tokenId).1.rows = s.rows :=
  (findMint_store s network tokenId).2.1

/-- The row that a block is archived as. -/
def storedAs (b : Block F) (network : String) : StoredBlock F :=
  ⟨b.hash, b.accountId, b.index, b.shard, network, b⟩

theorem rows_archiveEngineBlock (s : ProofRelay F) (b : Block F) (network : String) :
    ((verifyBlock P b = false ∨ s.engineBlockStore.has b.hash = true) ∧
      s.archiveEngineBlock P (some b) network = s) ∨
    (verifyBlock P b = true ∧
      (s.archiveEngineBlock P (some b) network).rows = s.rows ++ [storedAs b network]) := by
  rw [archiveEngineBlock]
  split
  case isTrue hbad => exact .inl ⟨.inl hbad, rfl⟩
  case isFalse hverified =>
    split
    case isTrue hhas => exact .inl ⟨.inr hhas, rfl⟩
    case isFalse hfresh =>
      refine .inr ⟨(Bool.not_eq_false _).mp hverified, ?_⟩
      rw [Bool.not_eq_true, JsMap.has_eq_false_iff] at hfresh
      rw [rows, JsMap.values_set_of_fresh hfresh, List.map_append]
      rfl

theorem Copied.has_of_hash (hP : CollisionFree P) (hsigned : SignedChain P x chain)
    (h : Copied P x chain s) (hb : b ∈ chain) (hhas : s.engineBlockStore.has b.hash = true) :
    s.Has b := by
  obtain ⟨row, hget⟩ := (JsMap.has_iff _ _).mp hhas
  have hrow := mem_rows_of_get? hget
  exact ⟨row.toStoredBlock, hrow, h.block_eq hP hsigned hrow hb (h b.hash row hget).1.symm⟩

theorem Copied.archived_of_has (h : Copied P x chain s) (hnetwork : s.OnNetwork network chain)
    (hall : ∀ b ∈ chain, s.Has b) : Archived s network chain := by
  intro b hb
  obtain ⟨r, hr, hblock⟩ := hall b hb
  obtain ⟨hash, row, hget, hstored⟩ := mem_rows hr
  obtain ⟨hhash, hrepeats, -⟩ := h hash row hget
  have hrow : row.block = b := (congrArg StoredBlock.block hstored).trans hblock
  rw [hhash, hrepeats.hash, hrow] at hget
  refine ⟨row, hget, ?_⟩
  rw [show row.network = r.network from congrArg StoredBlock.network hstored]
  exact hnetwork r hr (hblock ▸ hb)

theorem Copied.onNetwork_of_archived (hP : CollisionFree P) (hsigned : SignedChain P x chain)
    (h : Copied P x chain s) (harchived : Archived s network chain) :
    s.OnNetwork network chain := by
  intro r hr hmem
  obtain ⟨r', hr', hblock, hnetwork⟩ := h.archived hP hsigned harchived hmem
  rw [← List.inj_on_of_nodup_map h.nodup hr' hr hblock]
  exact hnetwork

end Rows

/-! ## What a request asks for, and what a peer serves -/

section Requests

variable {P : Primitives F} {x : Hex} {chain : List (Block F)} {s : ProofRelay F}
  {network : Network} {b : Block F} {request : EngineDeltaRequest}

theorem highestFrom_spec (counts : StoredBlock F → Bool) (l : List (StoredBlock F)) (start : Int) :
    (∀ r ∈ l, counts r = true → r.index ≤ highestFrom counts start l) ∧
      start ≤ highestFrom counts start l ∧
      (highestFrom counts start l = start ∨
        ∃ r ∈ l, counts r = true ∧ r.index = highestFrom counts start l) := by
  induction l generalizing start with
  | nil => exact ⟨fun r hr => (List.not_mem_nil hr).elim, le_rfl, .inl rfl⟩
  | cons head rest ih =>
    rw [highestFrom, List.foldl_cons]
    split
    case isTrue hhead =>
      obtain ⟨hcounts, hlt⟩ := Bool.and_eq_true_iff.mp hhead
      replace hlt := of_decide_eq_true hlt
      obtain ⟨hall, hle, hreached⟩ := ih head.index
      refine ⟨fun r hr hr' => ?_, hlt.le.trans hle, .inr ?_⟩
      · rcases List.mem_cons.mp hr with rfl | hr
        · exact hle
        · exact hall r hr hr'
      · rcases hreached with heq | ⟨r, hr, hrest⟩
        · exact ⟨head, List.mem_cons_self, hcounts, heq.symm⟩
        · exact ⟨r, List.mem_cons_of_mem head hr, hrest⟩
    case isFalse hhead =>
      obtain ⟨hall, hle, hreached⟩ := ih start
      refine ⟨fun r hr hr' => ?_, hle, ?_⟩
      · rcases List.mem_cons.mp hr with rfl | hr
        · refine le_trans (not_lt.mp fun hlt => hhead ?_) hle
          rw [hr', decide_eq_true hlt]
          rfl
        · exact hall r hr hr'
      · rcases hreached with heq | ⟨r, hr, hrest⟩
        · exact .inl heq
        · exact .inr ⟨r, List.mem_cons_of_mem head hr, hrest⟩

theorem le_highestIndex {r : StoredBlock F} (hr : r ∈ s.rows) (hnetwork : r.network = network.name)
    (haccount : r.accountId = x) : r.index ≤ s.highestIndex network x :=
  (highestFrom_spec _ s.rows (-1)).1 r hr (by simp [hnetwork, haccount])

theorem exists_highestIndex (h : 0 ≤ s.highestIndex network x) :
    ∃ r ∈ s.rows, r.accountId = x ∧ r.index = s.highestIndex network x := by
  rcases (highestFrom_spec (fun r => r.network = network.name && r.accountId = x)
    s.rows (-1)).2.2 with heq | ⟨r, hr, hcounts, hindex⟩
  · rw [highestIndex, heq] at h
    exact absurd h (by decide)
  · exact ⟨r, hr, of_decide_eq_true (Bool.and_eq_true_iff.mp hcounts).2, hindex⟩

theorem mem_serveEngineDelta : b ∈ s.serveEngineDelta request ↔
    ∃ r ∈ s.rows, r.accountId = request.accountId ∧ r.network = request.network.name ∧
      request.haveIndex < r.index ∧ r.block = b := by
  rw [serveEngineDelta, List.mem_map]
  simp only [NetworkArchive.sortByIndex, List.mem_mergeSort, List.mem_filter, Bool.and_eq_true,
    decide_eq_true_eq, and_assoc]

theorem Copied.mem_served_iff (hP : CollisionFree P)
    (hsigned : SignedChain P request.accountId chain) (h : Copied P request.accountId chain s)
    (harchived : Archived s request.network chain) :
    b ∈ s.serveEngineDelta request ↔ b ∈ chain ∧ request.haveIndex < b.index := by
  rw [mem_serveEngineDelta]
  constructor
  · intro hserved
    obtain ⟨r, hr, haccount, -, hlt, rfl⟩ := hserved
    obtain ⟨-, haccountId, hindex, -, hmem⟩ := h.row hr
    exact ⟨hmem (haccountId.symm.trans haccount), hindex ▸ hlt⟩
  · intro hb
    obtain ⟨r, hr, hblock, hnetwork⟩ := h.archived hP hsigned harchived hb.1
    obtain ⟨-, haccountId, hindex, -, -⟩ := h.row hr
    refine ⟨r, hr, ?_, hnetwork, ?_, hblock⟩
    · rw [haccountId, hblock, hsigned.account b hb.1]
    · rw [hindex, hblock]
      exact hb.2

theorem Copied.has_of_contiguous (hsigned : SignedChain P x chain) (h : Copied P x chain s)
    (hcontiguous : NetworkArchive.contiguous (s.chainOf network x) = true) (hb : b ∈ chain)
    (hle : b.index ≤ (((s.chainOf network x).getLast?).map StoredBlock.index).getD (-1)) :
    s.Has b := by
  obtain ⟨-, hindices⟩ := Bool.and_eq_true_iff.mp hcontiguous
  rw [List.all_eq_true] at hindices
  have hat : ∀ (i : Nat) (r : StoredBlock F), (s.chainOf network x)[i]? = some r → r.index = i :=
    fun i r hget => of_decide_eq_true (hindices (r, i) (List.mem_zipIdx_iff_getElem?.mpr hget))
  obtain ⟨i, hi⟩ := List.getElem?_of_mem hb
  have hheight := hsigned.height i b hi
  rw [List.getLast?_eq_getElem?] at hle
  cases hlast : (s.chainOf network x)[(s.chainOf network x).length - 1]? with
  | none =>
    rw [hlast, Option.map_none, Option.getD_none] at hle
    omega
  | some last =>
    rw [hlast, Option.map_some, Option.getD_some, hat _ last hlast, hheight] at hle
    obtain ⟨hlt, -⟩ := List.getElem?_eq_some_iff.mp hlast
    have hwithin : i < (s.chainOf network x).length := by omega
    have hget := List.getElem?_eq_getElem hwithin
    have hmem := List.mem_of_getElem? hget
    have hrow := mem_rows_of_chainOf hmem
    obtain ⟨-, haccount, hindex, -, hin⟩ := h.row hrow
    have hx : (s.chainOf network x)[i].accountId = x := by
      have hfilter := (List.mem_filter.mp (List.mem_mergeSort.mp hmem)).2
      exact of_decide_eq_true (Bool.and_eq_true_iff.mp hfilter).1
    refine ⟨_, hrow, eq_of_index_eq hsigned (hin (haccount.symm.trans hx)) hb ?_⟩
    rw [← hindex, hat i _ hget, hheight]

end Requests

end ProofRelay

namespace BackfillRelay

open ProofRelay

/-! ## Steps -/

section Steps

variable {P : Primitives F} {x : Hex} {chain : List (Block F)} {s : BackfillRelay F}
  {network : Network} {b : Block F}

theorem requestArchiveBackfill_spec (s : BackfillRelay F) (network : Network) (accountId : Hex)
    (haveIndex now : Int) :
    (s.requestArchiveBackfill P network accountId haveIndex now).1.archive = s.archive ∧
    (s.requestArchiveBackfill P network accountId haveIndex now).1.archiveEnabled =
      s.archiveEnabled ∧
    ∀ request, (s.requestArchiveBackfill P network accountId haveIndex now).2 = some request →
      s.archiveEnabled = true ∧ request.network = network ∧ request.accountId = accountId ∧
        request.haveIndex = haveIndex := by
  unfold requestArchiveBackfill
  split
  case isTrue => exact ⟨rfl, rfl, fun _ hnone => by cases hnone⟩
  case isFalse henabled =>
    split
    case isTrue => exact ⟨rfl, rfl, fun _ hnone => by cases hnone⟩
    case isFalse =>
      dsimp only
      split
      next => exact ⟨rfl, rfl, fun _ hnone => by cases hnone⟩
      next =>
        refine ⟨rfl, rfl, fun request hsome => ?_⟩
        rw [← Option.some.inj hsome]
        exact ⟨(Bool.not_eq_false _).mp fun hoff => henabled (.inl hoff), rfl, rfl, rfl⟩

theorem backfillSenders_spec (network : Network) (clock : Hex → Int) (senders : List Hex)
    (s : BackfillRelay F) :
    (backfillSenders P network clock senders s).1.archive = s.archive ∧
    (backfillSenders P network clock senders s).1.archiveEnabled = s.archiveEnabled ∧
    ∀ request ∈ (backfillSenders P network clock senders s).2,
      s.archiveEnabled = true ∧ request.network = network ∧
        request.haveIndex = s.archive.highestIndex network request.accountId := by
  induction senders generalizing s with
  | nil => exact ⟨rfl, rfl, fun _ hmem => (List.not_mem_nil hmem).elim⟩
  | cons sender rest ih =>
    obtain ⟨harchive, henabled, hrequest⟩ := requestArchiveBackfill_spec (P := P) s network sender
      (s.archive.highestIndex network sender) (clock sender)
    obtain ⟨hrestArchive, hrestEnabled, hrest⟩ := ih
      (s.requestArchiveBackfill P network sender (s.archive.highestIndex network sender)
        (clock sender)).1
    rw [harchive] at hrestArchive hrest
    rw [henabled] at hrestEnabled hrest
    refine ⟨hrestArchive, hrestEnabled, fun request hmem => ?_⟩
    rcases List.mem_append.mp hmem with hmem | hmem
    · obtain ⟨hon, hnetwork, haccount, hindex⟩ := hrequest request (Option.mem_toList.mp hmem)
      exact ⟨hon, hnetwork, by rw [hindex, haccount]⟩
    · exact hrest request hmem

section

variable (s : BackfillRelay F)

section

variable (network : Network)

theorem inboundAnswered_spec (pub : String) (sends : List (Option Hex)) (clock : Hex → Int) :
    (s.inboundAnswered P network pub sends clock).1.archive = s.archive ∧
    (s.inboundAnswered P network pub sends clock).1.archiveEnabled = s.archiveEnabled ∧
    ∀ request ∈ (s.inboundAnswered P network pub sends clock).2,
      s.archiveEnabled = true ∧ request.network = network ∧
        request.haveIndex = s.archive.highestIndex network request.accountId := by
  unfold inboundAnswered
  dsimp only
  split
  case isTrue => exact ⟨rfl, rfl, fun _ hmem => (List.not_mem_nil hmem).elim⟩
  case isFalse => exact backfillSenders_spec network clock _ _

theorem requestInboundBackfill_spec (pub : String)
    (now : Int) : (s.requestInboundBackfill network pub now).1.archive = s.archive ∧
    (s.requestInboundBackfill network pub now).1.archiveEnabled = s.archiveEnabled := by
  unfold requestInboundBackfill
  split
  case isTrue => exact ⟨rfl, rfl⟩
  case isFalse =>
    split
    case isTrue => exact ⟨rfl, rfl⟩
    case isFalse =>
      dsimp only
      split <;> exact ⟨rfl, rfl⟩

theorem pendingSends_spec (pub : String) (now : Int) :
    ((s.pendingSends network pub now).1.archive = s.archive ∨
      (s.pendingSends network pub now).1.archive = s.archive.filledIn network) ∧
    (s.pendingSends network pub now).1.archiveEnabled = s.archiveEnabled := by
  unfold pendingSends
  split
  case isTrue => exact ⟨.inl rfl, rfl⟩
  case isFalse =>
    dsimp only
    split
    case isTrue =>
      have hasked := requestInboundBackfill_spec
        { s with archive := s.archive.filledIn network } network pub now
      exact ⟨.inr hasked.1, hasked.2⟩
    case isFalse => exact ⟨.inr rfl, rfl⟩

/-- The index that a miss of `/head-proof` asks from. -/
def missIndex (s : ProofRelay F) (network : Network) (pub : String) : Int :=
  if NetworkArchive.contiguous (s.chainOf network pub) then
    (((s.chainOf network pub).getLast?).map StoredBlock.index).getD (-1)
  else -1

theorem headProof_spec (pub send : String)
    (now : Int) : (s.headProof P network pub send now).1.archive = s.archive ∧
    (s.headProof P network pub send now).1.archiveEnabled = s.archiveEnabled ∧
    ∀ request, (s.headProof P network pub send now).2.2 = some request →
      s.archiveEnabled = true ∧ request.network = network ∧ request.accountId = pub ∧
        request.haveIndex = missIndex s.archive network pub := by
  unfold headProof
  dsimp only
  split
  case isTrue => exact requestArchiveBackfill_spec s network pub _ now
  case isFalse => exact ⟨rfl, rfl, fun _ hnone => by cases hnone⟩

theorem answer_headProof (pub send : String) (now : Int) :
    (s.headProof P network pub send now).2.1 = s.archive.headProof P network pub send := by
  unfold headProof
  dsimp only
  split <;> rfl

end

theorem step_archiveEnabled (e : Event F) : (s.step P e).archiveEnabled = s.archiveEnabled := by
  cases e with
  | gossip block network =>
    rw [step, archiveEngineBlock]
    split <;> rfl
  | token => rfl
  | headProof network pub send now => exact (headProof_spec s network pub send now).2.1
  | pendingSends network pub now => exact (pendingSends_spec s network pub now).2
  | inboundAnswered network pub sends clock =>
    exact (inboundAnswered_spec s network pub sends clock).2.1

end

theorem step_rows_cases (P : Primitives F) (s : BackfillRelay F) (e : Event F) :
    (∃ block network, e = .gossip (some block) network ∧ s.archiveEnabled = true ∧
      (s.step P e).archive = s.archive.archiveEngineBlock P (some block) network) ∨
    (s.step P e).archive.rows = s.archive.rows := by
  cases e with
  | gossip block network =>
    rw [step, archiveEngineBlock]
    split
    case isTrue => exact .inr rfl
    case isFalse hon =>
      cases block with
      | none => exact .inr rfl
      | some block => exact .inl ⟨block, network, rfl, (Bool.not_eq_false _).mp hon, rfl⟩
  | token network tokenId => exact .inr (rows_token (P := P) s.archive network tokenId)
  | headProof network pub send now =>
    exact .inr (congrArg ProofRelay.rows (headProof_spec s network pub send now).1)
  | pendingSends network pub now =>
    rw [step]
    rcases (pendingSends_spec s network pub now).1 with hsame | hsame
    · exact .inr (congrArg ProofRelay.rows hsame)
    · exact .inr (hsame ▸ rows_filledIn s.archive network)
  | inboundAnswered network pub sends clock =>
    exact .inr (congrArg ProofRelay.rows (inboundAnswered_spec s network pub sends clock).1)

end Steps

/-! ## Runs -/

section Runs

variable [JsNumber F] {P : Primitives F} {x : Hex} {chain : List (Block F)} {s : BackfillRelay F}
  {network : Network} {b : Block F}

/-- What arrives of the account is of the chain, on the network. -/
def Brings (network : Network) (x : Hex) (chain : List (Block F)) : Event F → Prop
  | .gossip block network' =>
    ∀ b, block = some b → b.accountId = x → b ∈ chain ∧ network' = network.name
  | _ => True

/-- The archive copies what arrives, and has the chain on the network only. -/
structure Kept (P : Primitives F) (network : Network) (x : Hex) (chain : List (Block F))
    (s : BackfillRelay F) : Prop where
  enabled : s.archiveEnabled = true
  copied : Copied P x chain s.archive
  onNetwork : s.archive.OnNetwork network chain

omit [JsNumber F] in
theorem mem_rows_step {r : StoredBlock F} (hr : r ∈ s.archive.rows) (e : Event F) :
    r ∈ (s.step P e).archive.rows := by
  obtain ⟨block, net, -, -, harchive⟩ | hrows := step_rows_cases P s e
  · rw [harchive]
    rcases rows_archiveEngineBlock (P := P) s.archive block net with ⟨-, hsame⟩ | ⟨-, hrows⟩
    · rw [hsame]
      exact hr
    · rw [hrows]
      exact List.mem_append_left _ hr
  · rw [hrows]
    exact hr

theorem copied_step (h : Copied P x chain s.archive) {e : Event F}
    (hbrings : Brings network x chain e) : Copied P x chain (s.step P e).archive := by
  cases e with
  | gossip block net =>
    rw [step, archiveEngineBlock]
    split
    case isTrue => exact h
    case isFalse =>
      have hinput : ProofRelay.Brings x chain (.gossip block net) :=
        fun b hb haccount => (hbrings b hb haccount).1
      exact h.step hinput
  | token net tokenId =>
    have hinput : ProofRelay.Brings x chain (.token net tokenId) := trivial
    exact h.step hinput
  | headProof net pub send now =>
    rw [step, (headProof_spec s net pub send now).1]
    exact h
  | pendingSends net pub now =>
    rw [step]
    rcases (pendingSends_spec s net pub now).1 with hsame | hsame
    · rw [hsame]
      exact h
    · rw [hsame]
      exact h.filledIn net
  | inboundAnswered net pub sends clock =>
    rw [step, (inboundAnswered_spec s net pub sends clock).1]
    exact h

omit [JsNumber F] in
theorem onNetwork_step (hsigned : SignedChain P x chain) (h : s.archive.OnNetwork network chain)
    {e : Event F} (hbrings : Brings network x chain e) :
    (s.step P e).archive.OnNetwork network chain := by
  obtain ⟨block, net, rfl, -, harchive⟩ | hrows := step_rows_cases P s e
  · rw [harchive]
    rcases rows_archiveEngineBlock (P := P) s.archive block net with ⟨-, hsame⟩ | ⟨-, hrows⟩
    · rw [hsame]
      exact h
    · intro r hr hmem
      rw [hrows] at hr
      rcases List.mem_append.mp hr with hr | hr
      · exact h r hr hmem
      · rw [List.mem_singleton.mp hr] at hmem ⊢
        exact (hbrings block rfl (hsigned.account block hmem)).2
  · intro r hr hmem
    exact h r (hrows ▸ hr) hmem

theorem Kept.step (hsigned : SignedChain P x chain) (h : Kept P network x chain s) {e : Event F}
    (hbrings : Brings network x chain e) : Kept P network x chain (s.step P e) where
  enabled := (step_archiveEnabled s e).trans h.enabled
  copied := copied_step h.copied hbrings
  onNetwork := onNetwork_step hsigned h.onNetwork hbrings

omit [JsNumber F] in
theorem has_gossip (hP : CollisionFree P) (hsigned : SignedChain P x chain)
    (h : Kept P network x chain s) (hb : b ∈ chain) (net : String) :
    (s.step P (.gossip (some b) net)).archive.Has b := by
  have hstep : (s.step P (.gossip (some b) net)).archive =
      s.archive.archiveEngineBlock P (some b) net := by
    rw [BackfillRelay.step, archiveEngineBlock, if_neg (by rw [h.enabled]; decide)]
  rw [hstep]
  rcases rows_archiveEngineBlock (P := P) s.archive b net with ⟨hold, hsame⟩ | ⟨-, hrows⟩
  · rw [hsame]
    rcases hold with hbad | hhas
    · rw [hsigned.verified b hb] at hbad
      cases hbad
    · exact h.copied.has_of_hash hP hsigned hb hhas
  · refine ⟨storedAs b net, ?_, rfl⟩
    rw [hrows]
    exact List.mem_append_right _ List.mem_cons_self

omit [JsNumber F] in
theorem mem_rows_final {r : StoredBlock F} (events : List (Event F)) {s : BackfillRelay F}
    (hr : r ∈ s.archive.rows) : r ∈ (Run.final (step P) s events).archive.rows :=
  Run.invariant_final (I := fun s : BackfillRelay F => r ∈ s.archive.rows)
    (C := fun _ _ => True) (fun _ e hs _ => mem_rows_step hs e) hr
    (Run.stepsMeet_of_forall (fun _ _ => trivial) _ _)

theorem kept_final (hsigned : SignedChain P x chain) (h : Kept P network x chain s)
    {events : List (Event F)} (hbrings : ∀ e ∈ events, Brings network x chain e) :
    Kept P network x chain (Run.final (step P) s events) :=
  Run.invariant_final (C := fun _ e => Brings network x chain e)
    (fun _ _ hs he => hs.step hsigned he) h
    (Run.stepsMeet_of_mem (fun e he _ => hbrings e he) s)

theorem has_final (hP : CollisionFree P) (hsigned : SignedChain P x chain) (hb : b ∈ chain)
    {net : String} {events : List (Event F)} (h : Kept P network x chain s)
    (hbrings : ∀ e ∈ events, Brings network x chain e)
    (hmem : .gossip (some b) net ∈ events) : (Run.final (step P) s events).archive.Has b := by
  induction events generalizing s with
  | nil => cases hmem
  | cons e rest ih =>
    rcases List.mem_cons.mp hmem with heq | hmem
    · obtain ⟨r, hr, hblock⟩ := has_gossip hP hsigned h hb net
      rw [heq] at hr
      exact ⟨r, mem_rows_final rest hr, hblock⟩
    · exact ih (h.step hsigned (hbrings e List.mem_cons_self))
        (fun e' he' => hbrings e' (List.mem_cons_of_mem e he')) hmem

omit [JsNumber F] in
theorem mem_of_gossip {net : String} {r : StoredBlock F} {blocks : List (Block F)}
    (hr : r ∈ (Run.final (step P) s
      (blocks.map fun b => .gossip (some b) net)).archive.rows) :
    r ∈ s.archive.rows ∨ r.block ∈ blocks := by
  induction blocks generalizing s with
  | nil => exact .inl hr
  | cons b rest ih =>
    rcases ih hr with hr | hmem
    · obtain ⟨block, net', heq, -, harchive⟩ | hrows :=
        step_rows_cases P s (.gossip (some b) net)
      · cases heq
        rw [harchive] at hr
        rcases rows_archiveEngineBlock (P := P) s.archive b net with ⟨-, hsame⟩ | ⟨-, hrows⟩
        · exact .inl (hsame ▸ hr)
        · rw [hrows] at hr
          rcases List.mem_append.mp hr with hr | hr
          · exact .inl hr
          · rw [List.mem_singleton.mp hr]
            exact .inr List.mem_cons_self
      · exact .inl (hrows ▸ hr)
    · exact .inr (List.mem_cons_of_mem b hmem)

end Runs

/-! ## What heals a chain -/

section Heals

/-- The chain is archived, and `/head-proof` answers about every block of it. -/
structure Healed (P : Primitives F) (network : Network) (x : Hex) (chain : List (Block F))
    (s : BackfillRelay F) : Prop where
  archived : Archived s.archive network chain
  answers : ∀ send ∈ chain, ∀ now, ∃ packet,
    (s.headProof P network x send.hash now).2.1 = .packet packet

/-- However the reply of the peer arrives, and whatever else happens, the relay is healed. -/
def Heals (P : Primitives F) (chain : List (Block F)) (peer : ProofRelay F)
    (request : EngineDeltaRequest) (s : BackfillRelay F) : Prop :=
  ∀ events : List (Event F),
    (∀ e ∈ events, Brings request.network request.accountId chain e) →
    (∀ b ∈ peer.serveEngineDelta request,
      .gossip (some b) request.network.name ∈ events) →
    Healed P request.network request.accountId chain (Run.final (step P) s events)

def Event.isHeadProof : Event F → Bool
  | .headProof .. => true
  | _ => false

variable {P : Primitives F} {x : Hex} {chain : List (Block F)} {s : BackfillRelay F}
  {network : Network} {b : Block F} {request : EngineDeltaRequest} {peer : ProofRelay F}
  {e : Event F}

theorem requested_cases (h : request ∈ s.requested P e) : s.archiveEnabled = true ∧
    (e.isHeadProof = true ∧
        request.haveIndex = missIndex s.archive request.network request.accountId ∨
      e.isHeadProof = false ∧
        request.haveIndex = s.archive.highestIndex request.network request.accountId) := by
  cases e with
  | headProof network pub send now =>
    obtain ⟨hon, rfl, rfl, hindex⟩ :=
      (headProof_spec s network pub send now).2.2 request (Option.mem_toList.mp h)
    exact ⟨hon, .inl ⟨rfl, hindex⟩⟩
  | inboundAnswered network pub sends clock =>
    obtain ⟨hon, rfl, hindex⟩ :=
      (inboundAnswered_spec s network pub sends clock).2.2 request h
    exact ⟨hon, .inr ⟨rfl, hindex⟩⟩
  | gossip => cases h
  | token => cases h
  | pendingSends => cases h

theorem rows_step_of_requested (h : request ∈ s.requested P e) :
    (s.step P e).archive.rows = s.archive.rows := by
  obtain ⟨block, net, rfl, -, -⟩ | hrows := step_rows_cases P s e
  · cases h
  · exact hrows

theorem index_nonneg (hsigned : SignedChain P x chain) (hb : b ∈ chain) : 0 ≤ b.index := by
  obtain ⟨i, hi⟩ := List.getElem?_of_mem hb
  rw [hsigned.height i b hi]
  exact Int.natCast_nonneg i

theorem has_of_missIndex (hsigned : SignedChain P x chain) (h : Copied P x chain s.archive)
    (hb : b ∈ chain) (hle : b.index ≤ missIndex s.archive network x) : s.archive.Has b := by
  rw [missIndex] at hle
  split at hle
  case isTrue hcontiguous => exact h.has_of_contiguous hsigned hcontiguous hb hle
  case isFalse =>
    have hnonneg := index_nonneg hsigned hb
    omega

theorem has_of_highestIndex (hsigned : SignedChain P x chain) (h : Copied P x chain s.archive)
    (hgap : s.archive.NoGap chain) (hb : b ∈ chain)
    (hle : b.index ≤ s.archive.highestIndex network x) : s.archive.Has b := by
  obtain ⟨r, hr, haccount, hindex⟩ :=
    exists_highestIndex ((index_nonneg hsigned hb).trans hle)
  obtain ⟨-, haccountId, hblockIndex, -, hmem⟩ := h.row hr
  refine hgap r hr (hmem (haccountId.symm.trans haccount)) b hb ?_
  rw [← hblockIndex, hindex]
  exact hle

theorem healed_of_has (hP : CollisionFree P) (hsigned : SignedChain P x chain)
    (h : Kept P network x chain s) (hall : ∀ b ∈ chain, s.archive.Has b) :
    Healed P network x chain s := by
  have harchived := h.copied.archived_of_has h.onNetwork hall
  refine ⟨harchived, fun send hsend now => ?_⟩
  obtain ⟨proof, acc, i, hproof, -⟩ :=
    hsigned.exists_proof (fun b => decide (b.hash = send.hash)) hsend (decide_eq_true rfl)
  rw [answer_headProof]
  exact ⟨_, headProof_eq hP hsigned h.copied harchived hsend hproof⟩

theorem has_of_not_asked (hsigned : SignedChain P request.accountId chain)
    (hcopied : Copied P request.accountId chain s.archive) (hrequest : request ∈ s.requested P e)
    (hcond : e.isHeadProof = true ∨ s.archive.NoGap chain) (hb : b ∈ chain)
    (hle : b.index ≤ request.haveIndex) : s.archive.Has b := by
  obtain ⟨-, hcase | hcase⟩ := requested_cases hrequest
  · rw [hcase.2] at hle
    exact has_of_missIndex hsigned hcopied hb hle
  · rw [hcase.2] at hle
    refine has_of_highestIndex hsigned hcopied (hcond.resolve_left ?_) hb hle
    rw [hcase.1]
    exact Bool.false_ne_true

variable [JsNumber F]

theorem copied_final (h : Copied P x chain s.archive) {events : List (Event F)}
    (hbrings : ∀ e ∈ events, Brings network x chain e) :
    Copied P x chain (Run.final (step P) s events).archive :=
  Run.invariant_final (I := fun s : BackfillRelay F => Copied P x chain s.archive)
    (C := fun _ e => Brings network x chain e) (fun _ _ hs he => copied_step hs he) h
    (Run.stepsMeet_of_mem (fun e he _ => hbrings e he) s)

/-- What the reply alone can bring. -/
theorem heals_only_if (hP : CollisionFree P) (hsigned : SignedChain P request.accountId chain)
    (hcopied : Copied P request.accountId chain s.archive)
    (hpeer : Copied P request.accountId chain peer)
    (hfull : Archived peer request.network chain) (hrequest : request ∈ s.requested P e)
    (hcopied' : Copied P request.accountId chain (s.step P e).archive)
    (hheals : Heals P chain peer request (s.step P e)) :
    s.archive.OnNetwork request.network chain ∧
      (e.isHeadProof = true ∨ s.archive.NoGap chain) := by
  have hserved : ∀ b, b ∈ peer.serveEngineDelta request ↔
      b ∈ chain ∧ request.haveIndex < b.index :=
    fun b => hpeer.mem_served_iff hP hsigned hfull
  have hbrings : ∀ event ∈ (peer.serveEngineDelta request).map
      (fun b => Event.gossip (some b) request.network.name),
      Brings request.network request.accountId chain event := by
    intro event hevent
    obtain ⟨b, hb, rfl⟩ := List.mem_map.mp hevent
    intro b' hb' _
    rw [← Option.some.inj hb']
    exact ⟨((hserved b).mp hb).1, rfl⟩
  have hhealed := hheals _ hbrings fun b hb => List.mem_map.mpr ⟨b, hb, rfl⟩
  have hfinal := copied_final hcopied' hbrings
  have hnetwork : s.archive.OnNetwork request.network chain := by
    intro r hr hmem
    rw [← rows_step_of_requested hrequest] at hr
    exact hfinal.onNetwork_of_archived hP hsigned hhealed.archived r (mem_rows_final _ hr) hmem
  refine ⟨hnetwork, ?_⟩
  obtain ⟨-, hcase | ⟨-, hindex⟩⟩ := requested_cases hrequest
  · exact .inl hcase.1
  · refine .inr fun r hr hmem b hb hle => ?_
    obtain ⟨-, haccount, hblockIndex, -, -⟩ := hcopied.row hr
    have hnotServed : b ∉ peer.serveEngineDelta request := by
      intro hmemServed
      have hlt := ((hserved b).mp hmemServed).2
      have hhigh := le_highestIndex hr (hnetwork r hr hmem)
        (haccount.trans (hsigned.account r.block hmem))
      omega
    obtain ⟨r', hr', hblock, -⟩ := hfinal.archived hP hsigned hhealed.archived hb
    rcases mem_of_gossip hr' with hr' | hcarried
    · exact ⟨r', rows_step_of_requested hrequest ▸ hr', hblock⟩
    · exact absurd (hblock ▸ hcarried) hnotServed

/-- A granted request heals the chain, in whatever order the reply arrives, if and only if the
relay has the chain's blocks on the network alone, and the request comes from `/head-proof` or
nothing is missing below what the relay has. -/
theorem heals_iff (hP : CollisionFree P) (hsigned : SignedChain P request.accountId chain)
    (hcopied : Copied P request.accountId chain s.archive)
    (hpeer : Copied P request.accountId chain peer)
    (hfull : Archived peer request.network chain) (hrequest : request ∈ s.requested P e) :
    Heals P chain peer request (s.step P e) ↔
      s.archive.OnNetwork request.network chain ∧
        (e.isHeadProof = true ∨ s.archive.NoGap chain) := by
  have hrows := rows_step_of_requested hrequest
  have hquiet : Brings request.network request.accountId chain e := by
    cases e with
    | gossip => cases hrequest
    | token => trivial
    | headProof => trivial
    | pendingSends => trivial
    | inboundAnswered => trivial
  have hcopied' := copied_step hcopied hquiet
  refine ⟨heals_only_if hP hsigned hcopied hpeer hfull hrequest hcopied', ?_⟩
  intro hcond events hbrings harrive
  have hkept : Kept P request.network request.accountId chain (s.step P e) := by
    refine ⟨(step_archiveEnabled s e).trans (requested_cases hrequest).1, hcopied', ?_⟩
    intro r hr hmem
    exact hcond.1 r (hrows ▸ hr) hmem
  refine healed_of_has hP hsigned (kept_final hsigned hkept hbrings) fun b hb => ?_
  rcases le_or_gt b.index request.haveIndex with hle | hgt
  · obtain ⟨r, hr, hblock⟩ :=
      has_of_not_asked hsigned hcopied hrequest hcond.2 hb hle
    exact ⟨r, mem_rows_final events (hrows.symm ▸ hr), hblock⟩
  · exact has_final hP hsigned hb hkept hbrings
      (harrive b ((hpeer.mem_served_iff hP hsigned hfull).mpr ⟨hb, hgt⟩))

end Heals

/-! ## A gap below the highest index -/

/-- A relay that has archived nothing and knows Bob. -/
def newWithBob : BackfillRelay Rat where
  archive := .new
  knownAccounts := JsSet.addAll .empty ["testnet:bob"]
  backfill := .new defaultBackfillPolicy
  archiveEnabled := true
  hasPeers := true
  pubsubUp := true

/-- Alice opens her account, pays Bob and mints a token. -/
def payAndMint : List (EngineLedger.Call Rat) :=
  [.registerAccount ⟨"bob", "bob"⟩, .openAccount "alice" "alice" "nullifier" [] false 0,
    .createSend "alice" "bob" 5 "alice" 1, .createMintNft "alice" "song" [] "alice" 2]

def paidChain : List (Block Rat) :=
  (Run.final (EngineLedger.step Sample.transparent Sample.config)
    (EngineLedger.new Sample.transparent) payAndMint).getAccountChain "alice"

def gossipOf (chain : List (Block Rat)) : List (Event Rat) :=
  chain.map fun b => .gossip (some b) "testnet"

/-- The whole chain has reached the peer. -/
def fullRelay : BackfillRelay Rat :=
  Run.final (step Sample.transparent) newWithBob (gossipOf paidChain)

/-- This one slept through the payment, and then Bob asks. -/
def gappedRelay : BackfillRelay Rat :=
  Run.final (step Sample.transparent) newWithBob
    (gossipOf (paidChain.eraseIdx 1) ++ [.pendingSends .testnet "bob" 0])

/-- This one went to sleep after the first block. -/
def sleepingRelay : BackfillRelay Rat :=
  Run.final (step Sample.transparent) newWithBob
    (gossipOf (paidChain.take 1) ++ [.pendingSends .testnet "bob" 0])

/-- The peer tells that Alice has paid Bob. -/
def namesAlice : Event Rat := .inboundAnswered .testnet "bob" [some "alice"] fun _ => 0

theorem signedChain_paidChain : SignedChain Sample.transparent "alice" paidChain := by
  refine (chain_of_calls Sample.transparent Sample.config "alice" payAndMint ?_).1
  have hkey : ∀ priv, priv = "alice" → ∀ message, ∃ sig,
      Sample.transparent.sign message priv = some sig ∧
        Sample.transparent.verify sig message "alice" = true := by
    rintro _ rfl message
    exact ⟨_, rfl, Sample.verify_signature message "alice"⟩
  intro c hc priv hsigner
  apply hkey
  simp only [payAndMint, List.mem_cons, List.not_mem_nil, or_false] at hc
  rcases hc with rfl | rfl | rfl | rfl <;>
    simp_all [EngineLedger.Call.signer, EngineLedger.Call.author]

theorem brings_gossipOf {chain : List (Block Rat)} (hsub : chain ⊆ paidChain) :
    ∀ e ∈ gossipOf chain, Brings .testnet "alice" paidChain e := by
  intro e he
  obtain ⟨b, hb, rfl⟩ := List.mem_map.mp he
  intro b' hb' _
  rw [← Option.some.inj hb']
  exact ⟨hsub hb, rfl⟩

theorem copied_fullRelay : Copied Sample.transparent "alice" paidChain fullRelay.archive :=
  copied_final copied_new (brings_gossipOf (List.Subset.refl paidChain))

theorem archived_fullRelay : Archived fullRelay.archive .testnet paidChain :=
  archived_of_all (by decide +kernel)

theorem brings_askedBy {chain : List (Block Rat)} (hsub : chain ⊆ paidChain) :
    ∀ e ∈ gossipOf chain ++ [.pendingSends .testnet "bob" 0],
      Brings .testnet "alice" paidChain e := by
  intro e he
  rcases List.mem_append.mp he with he | he
  · exact brings_gossipOf hsub e he
  · rw [List.mem_singleton.mp he]
    trivial

theorem copied_gappedRelay :
    Copied Sample.transparent "alice" paidChain gappedRelay.archive :=
  copied_final copied_new (brings_askedBy List.eraseIdx_subset)

theorem copied_sleepingRelay :
    Copied Sample.transparent "alice" paidChain sleepingRelay.archive :=
  copied_final copied_new (brings_askedBy fun _ hb => List.mem_of_mem_take hb)

theorem onNetwork_gappedRelay : gappedRelay.archive.OnNetwork .testnet paidChain := by
  have hall : gappedRelay.archive.rows.all (fun r => decide (r.network = "testnet")) = true := by
    decide +kernel
  intro r hr _
  exact of_decide_eq_true (List.all_eq_true.mp hall r hr)

/-- Where nothing is missing below, the answer of the peer heals the chain. -/
theorem heals_sleepingRelay :
    ∃ request ∈ sleepingRelay.requested Sample.transparent namesAlice,
      Heals Sample.transparent paidChain fullRelay.archive request
        (sleepingRelay.step Sample.transparent namesAlice) := by
  have hasked : sleepingRelay.requested Sample.transparent namesAlice =
      [⟨.testnet, "alice", getShard Sample.transparent "alice" DEFAULT_NUM_SHARDS, 0⟩] := by
    decide +kernel
  have hnetwork : sleepingRelay.archive.rows.all (fun r => decide (r.network = "testnet")) =
      true := by decide +kernel
  have hbelow : sleepingRelay.archive.rows.all (fun r => paidChain.all fun b =>
      decide (b.index ≤ r.block.index → r.block = b)) = true := by decide +kernel
  have hrequest := hasked.symm ▸ List.mem_cons_self
  refine ⟨_, hrequest, ?_⟩
  refine (heals_iff Sample.collisionFree_transparent signedChain_paidChain copied_sleepingRelay
    copied_fullRelay archived_fullRelay hrequest).mpr ⟨fun r hr _ => ?_, .inr ?_⟩
  · exact of_decide_eq_true (List.all_eq_true.mp hnetwork r hr)
  · intro r hr _ b hb hle
    have hsame := List.all_eq_true.mp (List.all_eq_true.mp hbelow r hr) b hb
    exact ⟨r, hr, of_decide_eq_true hsame hle⟩

/-- Bob asks what was sent to him, and the relay, which has Alice's blocks on both sides of her
payment, asks its peers.  It asks for Alice's blocks above the highest that it has: the peer,
which has them all, publishes nothing, and the payment stays missing. -/
theorem gap_below_highest_stays :
    SignedChain Sample.transparent "alice" paidChain ∧
    Archived fullRelay.archive .testnet paidChain ∧
    Copied Sample.transparent "alice" paidChain fullRelay.archive ∧
    Copied Sample.transparent "alice" paidChain gappedRelay.archive ∧
    gappedRelay.archive.OnNetwork .testnet paidChain ∧
    ((Run.final (step Sample.transparent) newWithBob
      (gossipOf (paidChain.eraseIdx 1))).pendingSends .testnet "bob" 0).2.2.2 = true ∧
    ∃ request ∈ gappedRelay.requested Sample.transparent namesAlice,
      request.accountId = "alice" ∧ request.network = .testnet ∧
      fullRelay.archive.serveEngineDelta request = [] ∧
      ¬ Heals Sample.transparent paidChain fullRelay.archive request
        (gappedRelay.step Sample.transparent namesAlice) := by
  have hasked : gappedRelay.requested Sample.transparent namesAlice =
      [⟨.testnet, "alice", getShard Sample.transparent "alice" DEFAULT_NUM_SHARDS, 2⟩] := by
    decide +kernel
  refine ⟨signedChain_paidChain, archived_fullRelay, copied_fullRelay, copied_gappedRelay,
    onNetwork_gappedRelay, by decide +kernel, _, hasked.symm ▸ List.mem_cons_self, rfl, rfl,
    ?_, ?_⟩
  · rw [← List.isEmpty_iff]
    decide +kernel
  · intro hheals
    have hmissing : paidChain.any (fun b => ((gappedRelay.step Sample.transparent
        namesAlice).archive.engineBlockStore.get? b.hash).isNone) = true := by decide +kernel
    obtain ⟨b, hb, hnone⟩ := List.any_eq_true.mp hmissing
    have hserved : fullRelay.archive.serveEngineDelta ⟨.testnet, "alice",
        getShard Sample.transparent "alice" DEFAULT_NUM_SHARDS, 2⟩ = [] := by
      rw [← List.isEmpty_iff]
      decide +kernel
    have hhealed := hheals [] (fun _ he => (List.not_mem_nil he).elim) (by
      rw [hserved]
      exact fun _ hb => (List.not_mem_nil hb).elim)
    obtain ⟨row, hget, -⟩ := hhealed.archived b hb
    rw [Option.isNone_iff_eq_none] at hnone
    rw [Run.final_nil, hnone] at hget
    cases hget

end BackfillRelay

end NeuronWeb
