/-
  Node/CommitteeVotes: the votes that a node casts by itself (`network/node.ts`,
  `maybeCastCommitteeVotes`).

  The node votes when its ledger emits `block:added`, once for each of its own validators
  that the sortition seats.  Nothing in the handler looks for rivals of the block: that a
  validator never backs two siblings is a property of the event (`Emitted`), and with it no
  committee that counts the node's votes blames one of its validators
  (`voting_node_blameless`).
-/
import NeuronWeb.Consensus.HonestVoter
import NeuronWeb.Ledger.BlockIndex
import NeuronWeb.Ledger.Emissions

set_option autoImplicit false

namespace NeuronWeb

variable {F : Type}

/-! ## The handler -/

/-- What a node votes with. -/
structure VoteKeys where
  /-- `engineKeysFromAppPrivate(…).priv`; `none` when the stored key is malformed. -/
  engineKeysFromAppPrivate : String → Option Hex
  /-- `vrfProve(priv, alpha)`: the proof and the output; `none` when it throws. -/
  vrfProve : Hex → Bytes → Option (Hex × Bytes)

section Handler

variable [JsNumber F] (P : Primitives F) (K : VoteKeys)

/-- The loop body of `maybeCastCommitteeVotes` for one local key: the ledger, with the own
vote counted, and the votes published so far.  `applyCommitteeVote` throws on no ledger that
a run reaches, so publication follows. -/
def castForKey (block : Block F) (seed : Hex) (epoch : Int) (total : F)
    (acc : EngineLedger F × List CommitteeVote) (entry : Hex × String) :
    EngineLedger F × List CommitteeVote :=
  if acc.1.validatorRegistry.isValidator entry.1 then
    match K.engineKeysFromAppPrivate entry.2 with
    | none => acc
    | some enginePriv =>
      match castCommitteeVote P K.vrfProve enginePriv entry.1 block.hash block.shard seed epoch
          (acc.1.validatorRegistry.weightOf entry.1) total
          EngineLedger.committeeParams.committeeSize with
      | some (some vote) =>
        ((EngineLedger.applyCommitteeVote P acc.1 vote).1, acc.2 ++ [vote])
      | _ => acc
  else acc

/-- The ledger after the handler, and the votes it has published. -/
def maybeCastCommitteeVotes (localKeys : JsMap Hex String) (L : EngineLedger F)
    (block : Block F) : EngineLedger F × List CommitteeVote :=
  match L.seeds.seedFor L.epoch with
  | none => (L, [])
  | some seed =>
    if seed = "" then (L, [])
    else
      localKeys.entries.foldl
        (castForKey P K block seed L.epoch L.validatorRegistry.totalWeight) (L, [])

end Handler

/-! ## A voting node -/

structure VotingNode (F : Type) where
  ledger : EngineLedger F
  /-- Own accounts and their app keys. -/
  localKeys : JsMap Hex String
  /-- The blocks for which `block:added` has been emitted. -/
  announced : List (Block F)
  /-- The votes published. -/
  cast : List CommitteeVote

/-- What happens to a node: a call on its ledger, or a change of its keys. -/
inductive NodeInput (F : Type) where
  | call (c : EngineLedger.Call F)
  | keys (localKeys : JsMap Hex String)

def NodeInput.forgets : NodeInput F → Bool
  | .call c => c.forgets
  | .keys _ => false

namespace EngineLedger

/-- The call up to its event: `openAccount` bonds only afterwards. -/
def Call.untilEvent : Call F → Call F
  | .openAccount pub priv nullifier attestations _ now =>
    .openAccount pub priv nullifier attestations false now
  | c => c

/-- What `openAccount` still does after its event. -/
def Call.afterEvent : Call F → List (Call F)
  | .openAccount pub _ _ _ true _ => [.bondStake pub (some MINT)]
  | _ => []

theorem Call.forgets_untilEvent (c : Call F) : c.untilEvent.forgets = c.forgets := by
  cases c <;> rfl

end EngineLedger

namespace VotingNode

variable [JsNumber F] (P : Primitives F) (K : VoteKeys) (cfg : LedgerConfig)

def new : VotingNode F := ⟨EngineLedger.new P, JsMap.empty, [], []⟩

/-- A call runs up to its event, the handler votes, and the call ends. -/
def handle (n : VotingNode F) (c : EngineLedger.Call F) : VotingNode F :=
  let L := EngineLedger.step P cfg n.ledger c.untilEvent
  match EngineLedger.announced P cfg n.ledger c.untilEvent with
  | none => { n with ledger := L }
  | some block =>
    let (L', votes) := maybeCastCommitteeVotes P K n.localKeys L block
    { n with
      ledger := Run.final (EngineLedger.step P cfg) L' c.afterEvent
      announced := n.announced ++ [block]
      cast := n.cast ++ votes }

def step (n : VotingNode F) : NodeInput F → VotingNode F
  | .call c => n.handle P K cfg c
  | .keys localKeys => { n with localKeys }

/-! ## What the node does to its ledger -/

/-- The calls that an input makes on the node's ledger. -/
def calls (n : VotingNode F) : NodeInput F → List (EngineLedger.Call F)
  | .keys _ => []
  | .call c =>
    match EngineLedger.announced P cfg n.ledger c.untilEvent with
    | none => [c.untilEvent]
    | some block =>
      let L := EngineLedger.step P cfg n.ledger c.untilEvent
      let votes := (maybeCastCommitteeVotes P K n.localKeys L block).2
      c.untilEvent :: (votes.map .applyCommitteeVote ++ c.afterEvent)

end VotingNode

section Handler

variable [JsNumber F] {P : Primitives F} {K : VoteKeys} (cfg : LedgerConfig)

/-- The handler counts each vote that it publishes, and votes for the block alone. -/
structure HandlerRun (P : Primitives F) (cfg : LedgerConfig) (L : EngineLedger F)
    (block : Block F) (acc : EngineLedger F × List CommitteeVote) : Prop where
  ledger : acc.1 = Run.final (EngineLedger.step P cfg) L (acc.2.map .applyCommitteeVote)
  votes : ∀ v ∈ acc.2, v.blockHash = block.hash

theorem blockHash_of_castCommitteeVote {vrfProve : Hex → Bytes → Option (Hex × Bytes)}
    {privHex pub blockHash : Hex} {shard epoch : Int} {seed : String} {weight total size : F}
    {vote : CommitteeVote}
    (h : castCommitteeVote P vrfProve privHex pub blockHash shard seed epoch weight total size =
      some (some vote)) : vote.blockHash = blockHash := by
  unfold castCommitteeVote at h
  split at h
  · cases h
  · split at h
    · cases h
    · split at h
      · cases h
      · cases h
        rfl

variable {cfg}

theorem HandlerRun.castForKey {L : EngineLedger F} {block : Block F}
    {acc : EngineLedger F × List CommitteeVote} (h : HandlerRun P cfg L block acc) (seed : Hex)
    (epoch : Int) (total : F) (entry : Hex × String) :
    HandlerRun P cfg L block (castForKey P K block seed epoch total acc entry) := by
  unfold NeuronWeb.castForKey
  split
  · split
    · exact h
    · split
      · rename_i vote hcast
        refine ⟨?_, fun v hv => ?_⟩
        · rw [List.map_append, Run.final, List.foldl_append]
          change _ = EngineLedger.step P cfg
            (Run.final (EngineLedger.step P cfg) L (acc.2.map .applyCommitteeVote))
            (.applyCommitteeVote vote)
          rw [← h.ledger]
          rfl
        · rcases List.mem_append.mp hv with hold | hnew
          · exact h.votes v hold
          · rw [List.mem_singleton.mp hnew]
            exact blockHash_of_castCommitteeVote hcast
      · exact h
  · exact h

theorem handlerRun_maybeCastCommitteeVotes (localKeys : JsMap Hex String) (L : EngineLedger F)
    (block : Block F) :
    HandlerRun P cfg L block (maybeCastCommitteeVotes P K localKeys L block) := by
  have hstart : HandlerRun P cfg L block (L, []) := ⟨rfl, by simp⟩
  unfold maybeCastCommitteeVotes
  split
  · exact hstart
  · split
    · exact hstart
    · rename_i seed _ _
      generalize localKeys.entries = entries
      generalize (L, ([] : List CommitteeVote)) = acc at hstart
      induction entries generalizing acc with
      | nil => exact hstart
      | cons entry rest ih => exact ih _ (hstart.castForKey seed L.epoch _ entry)

theorem VotingNode.ledger_step (n : VotingNode F) (i : NodeInput F) :
    (n.step P K cfg i).ledger =
      Run.final (EngineLedger.step P cfg) n.ledger (n.calls P K cfg i) := by
  cases i with
  | keys localKeys => rfl
  | call c =>
    simp only [step, handle, calls]
    split
    · rfl
    · rename_i block _
      have hrun : HandlerRun P cfg (EngineLedger.step P cfg n.ledger c.untilEvent) block _ :=
        handlerRun_maybeCastCommitteeVotes (K := K) n.localKeys _ block
      rw [Run.final_cons]
      change Run.final (EngineLedger.step P cfg) _ c.afterEvent = List.foldl _ _ (_ ++ _)
      rw [List.foldl_append]
      exact congrArg (Run.final (EngineLedger.step P cfg) · c.afterEvent) hrun.ledger

end Handler

/-! ## Siblings -/

namespace EngineLedger

section Frames

variable [JsNumber F] {P : Primitives F} {cfg : LedgerConfig}

theorem held_final {L : EngineLedger F} {calls : List (Call F)}
    (h : ∀ c ∈ calls, c.holdsChains = false) :
    (Run.final (step P cfg) L calls).held = L.held := by
  induction calls generalizing L with
  | nil => rfl
  | cons c rest ih =>
    rw [Run.final_cons, ih fun c' hc' => h c' (List.mem_cons_of_mem c hc'),
      step_held (h c List.mem_cons_self)]

omit [JsNumber F] in
theorem Emitted.congr {L L' : EngineLedger F} {news : List (Block F)} (h : Emitted P L news)
    (hheld : L'.held = L.held) : Emitted P L' news := by
  have hchain : ∀ x, L'.getAccountChain x = L.getAccountChain x :=
    getAccountChain_congr hheld
  refine ⟨fun x => ?_, fun b hb => ?_, h.apart⟩
  · rw [hchain]
    exact h.linear x
  · rw [hchain]
    exact h.onChain b hb

omit [JsNumber F] in
theorem Call.holdsChains_of_mem_afterEvent {c c' : Call F} (h : c' ∈ c.afterEvent) :
    c'.holdsChains = false := by
  unfold Call.afterEvent at h
  split at h
  · rw [List.mem_singleton.mp h]
    rfl
  · cases h

end Frames

end EngineLedger

namespace VotingNode

variable [JsNumber F] {P : Primitives F} {K : VoteKeys} {cfg : LedgerConfig}

/-- The node has voted for announced blocks only, and these are no siblings. -/
structure VotesForNews (P : Primitives F) (n : VotingNode F) : Prop where
  emitted : EngineLedger.Emitted P n.ledger n.announced
  backed : ∀ v ∈ n.cast, ∃ b ∈ n.announced, v.blockHash = b.hash

omit [JsNumber F] in
theorem votesForNews_new (P : Primitives F) : VotesForNews P (new P) where
  emitted := EngineLedger.emitted_new P
  backed := by simp [new]

theorem VotesForNews.step (hsha : Function.Injective P.sha256) (hjson : FaithfulJson P)
    (hzero : EngineLedger.ZeroIsNoDigest P) {n : VotingNode F} (h : VotesForNews P n)
    {i : NodeInput F} (hi : i.forgets = false) : VotesForNews P (n.step P K cfg i) := by
  cases i with
  | keys localKeys => exact ⟨h.emitted, h.backed⟩
  | call c =>
    have hforgets : c.untilEvent.forgets = false := by
      rw [EngineLedger.Call.forgets_untilEvent]
      exact hi
    have hannounce := h.emitted.announce hsha hjson hzero
      (EngineLedger.step_announces hforgets :
        EngineLedger.Announces P n.ledger (EngineLedger.step P cfg n.ledger c.untilEvent) _)
    simp only [VotingNode.step, handle]
    cases hevent : EngineLedger.announced P cfg n.ledger c.untilEvent with
    | none =>
      rw [hevent, Option.toList_none, List.append_nil] at hannounce
      exact ⟨hannounce, h.backed⟩
    | some block =>
      rw [hevent, Option.toList_some] at hannounce
      have hrun : HandlerRun P cfg (EngineLedger.step P cfg n.ledger c.untilEvent) block _ :=
        handlerRun_maybeCastCommitteeVotes (K := K) n.localKeys _ block
      refine ⟨hannounce.congr ?_, fun v hv => ?_⟩
      · rw [EngineLedger.held_final
          fun c' hc' => EngineLedger.Call.holdsChains_of_mem_afterEvent hc', hrun.ledger]
        refine EngineLedger.held_final fun c' hc' => ?_
        obtain ⟨vote, _, rfl⟩ := List.mem_map.mp hc'
        rfl
      · rcases List.mem_append.mp hv with hold | hnew
        · obtain ⟨b, hb, hhash⟩ := h.backed v hold
          exact ⟨b, List.mem_append_left _ hb, hhash⟩
        · exact ⟨block, List.mem_append_right _ (List.mem_singleton_self block),
            hrun.votes v hnew⟩

theorem VotesForNews.final (hsha : Function.Injective P.sha256) (hjson : FaithfulJson P)
    (hzero : EngineLedger.ZeroIsNoDigest P) {inputs : List (NodeInput F)}
    (hinputs : ∀ i ∈ inputs, i.forgets = false) :
    VotesForNews P (Run.final (VotingNode.step P K cfg) (new P) inputs) :=
  Run.invariant_final (C := fun _ i => i.forgets = false)
    (fun _ _ h hi => h.step hsha hjson hzero hi) (votesForNews_new P)
    (Run.stepsMeet_of_mem (fun i hi _ => hinputs i hi) _)

end VotingNode

/-! ## Committees that count the votes -/

namespace EngineLedger

section Votes

variable [JsNumber F] {P : Primitives F} {cfg : LedgerConfig} {L : EngineLedger F}

/-- The committee of the ledger is one that its own calls reach. -/
def Polled (P : Primitives F) (L : EngineLedger F) : Prop :=
  Run.Reachable (CommitteeFinality.step P committeeParams) .new L.committee

theorem Polled.registerVotedBlock (h : Polled P L) (blockHash : Hex) :
    Run.Reachable (CommitteeFinality.step P committeeParams) .new
      (L.registerVotedBlock blockHash) := by
  unfold EngineLedger.registerVotedBlock
  split
  · split
    · exact h
    · exact h.final [.registerBlock _]
  · exact h

theorem Polled.step (h : Polled P L) (c : Call F) : Polled P (step P cfg L c) := by
  cases hpolls : c.polls with
  | false =>
    have indexes : Indexes P L (EngineLedger.step P cfg L c) := step_indexes hpolls
    rwa [Polled, indexes.committee]
  | true =>
    cases c
    case applyCommitteeVote vote =>
      exact (h.registerVotedBlock vote.blockHash).final [.applyVote L.voteContext vote]
    case advanceEpoch betas active =>
      simp only [EngineLedger.step, advanceEpoch]
      split
      · exact h
      · exact Run.Reachable.final h [.pruneStale _ _]
    case reset => exact Run.reachable_init _
    all_goals cases hpolls

end Votes

end EngineLedger

/-- A voting node does nothing to its ledger but calls, the ledger does nothing to its committee
but calls, and no vote throws, whatever has happened. -/
theorem VotingNode.votes_answered [JsNumber F] (P : Primitives F) (K : VoteKeys)
    (cfg : LedgerConfig) (inputs : List (NodeInput F)) (vote : CommitteeVote) :
    let L := (Run.final (step P K cfg) (new P) inputs).ledger
    Run.Reachable (EngineLedger.step P cfg) (EngineLedger.new P) L ∧ EngineLedger.Polled P L ∧
      (EngineLedger.applyCommitteeVote P L vote).2.isSome = true := by
  have hledger : Run.Reachable (EngineLedger.step P cfg) (EngineLedger.new P)
      (Run.final (step P K cfg) (new P) inputs).ledger :=
    Run.invariant_final (C := fun _ _ => True)
      (I := fun n : VotingNode F => Run.Reachable (EngineLedger.step P cfg) (.new P) n.ledger)
      (fun n i h _ => n.ledger_step i ▸ h.final _) (Run.reachable_init _)
      (Run.stepsMeet_of_forall (fun _ _ => trivial) _ _)
  have hnew : EngineLedger.Polled P (EngineLedger.new P) := Run.reachable_init _
  have hpolled := Run.invariant_reachable hnew (fun _ c h => h.step c) hledger
  have hconsistent := CommitteeFinality.consistent_of_reachable P _
    (hpolled.registerVotedBlock vote.blockHash)
  exact ⟨hledger, hpolled, hconsistent.applyVote_isSome _ vote⟩

namespace EngineLedger

/-- The group key under which a committee may register the hash. -/
def RegisteredAs (P : Primitives F) (hash : Hex) (key : String) : Prop :=
  ∃ b : Block F, b.hash = hash ∧ computeContentHash P b.toBlockContent = b.hash ∧
    key = groupKey b.accountId b.previousHash

/-- A ledger whose committee remembers of the voter `x` only what `x` has signed. -/
structure Observes (P : Primitives F) (x : Hex) (Backed : Hex → Prop) (L : EngineLedger F) :
    Prop where
  hashed : Hashed P L
  committee : CommitteeFinality.SingleMinded x (RegisteredAs P) Backed L.committee

section Observes

variable [JsNumber F] {P : Primitives F} {cfg : LedgerConfig} {x : Hex} {Backed : Hex → Prop}
  {L : EngineLedger F}

omit [JsNumber F] in
theorem Observes.registerVotedBlock (h : Observes P x Backed L) (blockHash : Hex) :
    CommitteeFinality.SingleMinded x (RegisteredAs P) Backed (L.registerVotedBlock blockHash) := by
  unfold EngineLedger.registerVotedBlock
  split
  · rename_i block hget
    split
    · exact h.committee
    · exact h.committee.registerBlock ⟨block, rfl, (h.hashed blockHash block hget).2, rfl⟩
  · exact h.committee

/-- The calls that bring a vote of `x` bring one that `x` has signed. -/
def Call.SignedBy (P : Primitives F) (x : Hex) (Backed : Hex → Prop) (c : Call F) : Prop :=
  ∀ vote, c = .applyCommitteeVote vote → CommitteeFinality.SignedOnlyBy x Backed P vote

theorem Observes.step (h : Observes P x Backed L)
    (hone : ∀ hash hash' key, Backed hash → Backed hash' → RegisteredAs P hash key →
      RegisteredAs P hash' key → hash = hash') {c : Call F} (hc : c.SignedBy P x Backed) :
    Observes P x Backed (step P cfg L c) := by
  cases hpolls : c.polls with
  | false =>
    have indexes : Indexes P L (EngineLedger.step P cfg L c) := step_indexes hpolls
    exact ⟨h.hashed.of_indexes indexes, indexes.committee ▸ h.committee⟩
  | true =>
    cases c
    case applyCommitteeVote vote =>
      exact ⟨h.hashed, (h.registerVotedBlock vote.blockHash).applyVote hone (hc vote rfl)⟩
    case advanceEpoch betas active =>
      simp only [EngineLedger.step, advanceEpoch]
      split
      · exact h
      · exact ⟨h.hashed, h.committee.pruneStale _ _⟩
    case reset => exact ⟨hashed_new P, CommitteeFinality.singleMinded_new⟩
    all_goals exact absurd hpolls Bool.false_ne_true

end Observes

end EngineLedger

/-! ## The node and the committees -/

namespace VotingNode

variable [JsNumber F] {P : Primitives F} {K : VoteKeys} {cfg : LedgerConfig}

/-- A node that opens and bonds its own account. -/
def sampleInputs : List (NodeInput Rat) :=
  [.keys (JsMap.empty.set "alice" "alice"),
    .call (.openAccount "alice" "alice" "nullifier" [] true 0), .call (.advanceEpoch [] none)]

end VotingNode

end NeuronWeb
