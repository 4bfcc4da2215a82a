/-
  Ledger/FailedCreates: what a failed `openAccount` or `create*` call leaves behind.

  `createBlock` appends to the accumulator before it signs, and `openAccount` spends the nullifier
  before it builds the genesis block.  So a call that fails while it signs has moved the ledger, and
  every other failed call has not (`failed_creates_intact`).
-/
import NeuronWeb.Ledger.PeerAcceptance

set_option autoImplicit false

namespace NeuronWeb.EngineLedger

variable {F : Type} [JsNumber F]

/-! ## Calls that answer -/

section Calls

variable {P : Primitives F} {cfg : LedgerConfig} {L : EngineLedger F}
variable {c : Call F} {r : EngineLedger F × CreateResult F}

theorem author_of_createCall (h : createCall P cfg L c = some r) :
    (∃ pub priv nullifier attestations bond now,
        c = .openAccount pub priv nullifier attestations bond now) ∨
      ∃ pub priv now, c.author = some (pub, priv, now) := by
  cases c <;> first
    | exact .inl ⟨_, _, _, _, _, _, rfl⟩
    | exact .inr ⟨_, _, _, rfl⟩
    | cases h

end Calls

/-! ## What a call is about to sign -/

section Signing

variable (P : Primitives F) (cfg : LedgerConfig) (L : EngineLedger F)

/-- The key signs the block that `content` makes on top of the accumulator. -/
def Signable (content : BlockContent F) (priv : Hex) (accumulator : AccountAccumulator) : Prop :=
  ∃ acc, accumulator.append (computeContentHash P content) = some acc ∧
    (P.sign (blockSigningMessage (computeContentHash P content) (acc.rootHex P)) priv).isSome

/-- The guards of a `create*` call admit this content on the held chain `h`. -/
structure Drafted (c : Call F) (pub priv : Hex) (now : Int) (h : Held F)
    (content : BlockContent F) (effect : Effect F) : Prop where
  author : c.author = some (pub, priv, now)
  stored : L.held.get? pub = some h
  draft : ∃ head, h.chain.getLast? = some head ∧ Draft P L pub priv head now c content effect
  /-- A deregistration repeats the capacity on record. -/
  capacity : content.type = .storageDeregister → ∀ provider,
    L.providerLedger.providers.get? pub = some provider →
      content.storage = some { capacityGB := some provider.capacityGB }

/-- The genesis block of an account. -/
def openContent (pub nullifier : Hex) (attestations : List TypedAttestation) (shard now : Int) :
    BlockContent F :=
  { accountId := pub, index := 0, type := .open, previousHash := GENESIS_PREV, shard,
    timestamp := now, balance := MINT
    identityCommitment := some (deriveCommitment P nullifier pub)
    attestations := some attestations }

/-- The call passes its guards, and then its block is not signed: the key is malformed, or, for
a genesis block, there is no shard to put it in. -/
inductive SignsInVain : Call F → Prop
  | opening (pub priv nullifier : Hex) (attestations : List TypedAttestation) (bond : Bool)
      (now : Int) (identity : IdentityRegistry)
      (admitted : OpenAdmitted P cfg L pub nullifier attestations identity)
      (unsigned : ∀ shard, getShard P pub cfg.numShards = some shard →
        ¬ Signable P (openContent P pub nullifier attestations shard now) priv []) :
      SignsInVain (.openAccount pub priv nullifier attestations bond now)
  | creating (c : Call F) (pub priv : Hex) (now : Int) (h : Held F) (content : BlockContent F)
      (effect : Effect F) (drafted : Drafted P L c pub priv now h content effect)
      (unsigned : ¬ Signable P content priv h.acc) : SignsInVain c

end Signing

section Lemmas

variable {P : Primitives F} {cfg : LedgerConfig} {L : EngineLedger F}

omit [JsNumber F] in
theorem createBlock_cases (P : Primitives F) (content : BlockContent F) (priv : Hex)
    (accumulator : AccountAccumulator) :
    (¬ Signable P content priv accumulator ∧ ∃ bytes,
        createBlock P content priv accumulator = (accumulator ++ [bytes], none)) ∨
      (Signable P content priv accumulator ∧ ∃ acc block,
        createBlock P content priv accumulator = (acc, some block)) := by
  have happend := append_computeContentHash P content accumulator
  unfold createBlock Signable
  simp only [happend, Option.some.injEq, exists_eq_left']
  cases hsign : P.sign (blockSigningMessage (computeContentHash P content)
      (AccountAccumulator.rootHex P (accumulator ++ [P.sha256
        (P.encodeJson (canonicalContent content).sortValue)]))) priv with
  | none => exact .inl ⟨by simp, _, rfl⟩
  | some sig => exact .inr ⟨rfl, _, _, rfl⟩

theorem registered_provider {pub : Hex} (h : L.providerLedger.isRegistered pub = true) :
    ∃ provider, L.providerLedger.providers.get? pub = some provider ∧
      JsNumber.le provider.capacityGB (JsNumber.ofInt 0) = false := by
  unfold ProviderLedger.isRegistered at h
  cases hprovider : L.providerLedger.providers.get? pub with
  | none => simp [hprovider] at h
  | some provider => exact ⟨provider, rfl, by simpa [hprovider] using h⟩

theorem Drafted.createCall_eq {c : Call F} {pub priv : Hex} {now : Int} {h : Held F}
    {content : BlockContent F} {effect : Effect F} (cfg : LedgerConfig)
    (d : Drafted P L c pub priv now h content effect) :
    createCall P cfg L c = some (appendOwn P L h content priv effect) := by
  obtain ⟨-, stored, ⟨head, last, draft⟩, capacity⟩ := d
  have hheld : L.heldHead pub = some (h, head) := heldHead_eq_some.mpr ⟨stored, last⟩
  cases draft with
  | send recipientIdentifier recipientPub amount amt resolved ne positive rounded covered =>
    have hcovered : ¬ head.balance - L.validatorRegistry.bondedOf pub < amt := by omega
    simp [createCall, createSend, resolved, ne, hheld, positive, rounded, hcovered]
  | receive sendBlockHash unclaimed amt offered addressed rounded =>
    simp [createCall, createReceive, offered, addressed, hheld, rounded]
  | update updates notFrozen some_update =>
    simp [createCall, createUpdate, hheld, notFrozen, some_update]
  | nftMint contentRef md notFrozen contentRef_ne =>
    simp [createCall, createMintNft, hheld, notFrozen, contentRef_ne]
  | nftSend tokenId recipientIdentifier recipientPub resolved ne notFrozen owned =>
    simp [createCall, createTransferNft, resolved, ne, notFrozen, owned, hheld]
  | nftReceive nftSendHash unclaimed notFrozen offered addressed =>
    simp [createCall, createReceiveNft, notFrozen, offered, addressed, hheld]
  | nftBurn tokenId notFrozen owned =>
    simp [createCall, createBurnNft, notFrozen, owned, hheld]
  | storageRegister capacityGB deviceId notFrozen finite positive =>
    simp [createCall, createStorageRegister, hheld, notFrozen, finite, positive,
      appendStorageBlock]
  | storageDeregister storage registered =>
    obtain ⟨provider, hprovider, hpositive⟩ := registered_provider registered
    have hstorage := capacity rfl provider hprovider
    rw [Option.some.inj hstorage]
    simp [createCall, createStorageDeregister, hheld, hprovider, hpositive, appendStorageBlock]
  | storageSettle receipts periodIndex publishRoot serviceRoot payable amount registered
      some_receipt credited positive floored =>
      subst credited
      refine congrArg some ?_
      unfold createStorageSettle
      rw [hheld]
      refine (if_neg (by simp [registered])).trans ?_
      refine (if_neg (by simpa using some_receipt)).trans ?_
      refine (if_neg (by rw [← settlePayload, positive]; exact Bool.false_ne_true)).trans ?_
      rw [← settlePayload, floored]
      rfl

/-- A `create*` call fails by a guard, with the ledger as it was, or appends what it drafts. -/
theorem createCall_cases {c : Call F} {pub priv : Hex} {now : Int}
    (hauthor : c.author = some (pub, priv, now)) {r : EngineLedger F × CreateResult F}
    (h : createCall P cfg L c = some r) :
    r.1 = L ∨ ∃ held content effect, Drafted P L c pub priv now held content effect := by
  have hauthored : ∃ r, createCall P cfg L c = some r ∧ CreateOutcome P L c pub priv now r :=
    createCall_of_author P cfg L hauthor
  obtain ⟨r', hr', houtcome⟩ := hauthored
  rw [h, Option.some.injEq] at hr'
  subst hr'
  cases houtcome with
  | refused error => exact .inl rfl
  | thrown => exact .inl rfl
  | drafted held head content effect stored last draft =>
    right
    -- a draft of a deregistration may name any payload; the call takes the one on record
    by_cases htype : content.type = .storageDeregister
    · cases draft with
      | storageDeregister storage registered =>
        obtain ⟨provider, hprovider, -⟩ := registered_provider registered
        refine ⟨held, _, _, hauthor, stored, ⟨head, last,
          .storageDeregister { capacityGB := some provider.capacityGB } registered⟩, ?_⟩
        intro _ provider' hprovider'
        rw [hprovider, Option.some.injEq] at hprovider'
        rw [hprovider']
      | _ => cases htype
    · exact ⟨held, content, effect, hauthor, stored, ⟨head, last, draft⟩,
        fun h => absurd h htype⟩

end Lemmas

/-! ## The calls that leave the ledger alone -/

section Intact

variable (P : Primitives F) (cfg : LedgerConfig)

/-- The next block of any account that keeps to the rules is accepted by a peer that has `L`. -/
def NextAccepted (L L' : EngineLedger F) : Prop :=
  ∀ (c : Call F) (pub priv : Hex) (now now' : Int) (block : Block F),
    c.author = some (pub, priv, now) → KeyMatches P pub priv → PeersAccept P L' c →
      created P L' c = some block → (addBlock P L block now').2 = .success

/-- If the call throws or answers with an error, the ledger is as before, and peers accept what
is created next. -/
def Intact (L : EngineLedger F) (c : Call F) : Prop :=
  ∀ r, createCall P cfg L c = some r → (∀ block, r.2 ≠ .created block) →
    r.1 = L ∧ NextAccepted P L r.1

variable {P cfg} {L : EngineLedger F}

section

omit [JsNumber F]

theorem appendOwn_of_unsignable {h : Held F} {content : BlockContent F} {priv : Hex}
    (effect : Effect F) (hunsigned : ¬ Signable P content priv h.acc) :
    ∃ bytes, appendOwn P L h content priv effect =
      (L.hold content.accountId ⟨h.chain, h.acc ++ [bytes]⟩, .thrown) := by
  rcases createBlock_cases P content priv h.acc with ⟨-, bytes, hcreate⟩ | ⟨hsigned, -⟩
  · exact ⟨bytes, by simp only [appendOwn, hcreate]⟩
  · exact absurd hsigned hunsigned

theorem appendOwn_of_signable {h : Held F} {content : BlockContent F} {priv : Hex}
    (effect : Effect F) (hsigned : Signable P content priv h.acc) :
    ∃ block, (appendOwn P L h content priv effect).2 = .created block := by
  rcases createBlock_cases P content priv h.acc with ⟨hunsigned, -⟩ | ⟨-, acc, block, hcreate⟩
  · exact absurd hsigned hunsigned
  · exact ⟨block, by simp only [appendOwn, hcreate]⟩

theorem hold_ne {pub : Hex} {h : Held F} (stored : L.held.get? pub = some h) (bytes : Bytes) :
    L.hold pub ⟨h.chain, h.acc ++ [bytes]⟩ ≠ L := by
  intro heq
  have hget := congrArg (fun L' => L'.held.get? pub) heq
  have hset : (L.hold pub ⟨h.chain, h.acc ++ [bytes]⟩).held.get? pub =
      some ⟨h.chain, h.acc ++ [bytes]⟩ := JsMap.get?_set_self _ _ _
  simp only [hset, stored, Option.some.injEq] at hget
  have hlength := congrArg (fun held => held.acc.length) hget
  simp at hlength

end

/-! ### Opening an account -/

/-- The nullifier is spent, and the genesis block is not made. -/
def spent (L : EngineLedger F) (identity : IdentityRegistry) : EngineLedger F × CreateResult F :=
  ({ L with identity }, .thrown)

omit [JsNumber F] in
/-- A call that is not admitted leaves the ledger as it was; one that is makes a block or ends with
the nullifier spent. -/
theorem openAccount_cases (cfg : LedgerConfig) (L : EngineLedger F) (pub priv nullifier : Hex)
    (attestations : List TypedAttestation) (bond : Bool) (now : Int) :
    ((openAccount P cfg L pub priv nullifier attestations bond now).1 = L ∧
        ∀ identity, ¬ OpenAdmitted P cfg L pub nullifier attestations identity) ∨
      ∃ identity, OpenAdmitted P cfg L pub nullifier attestations identity ∧
        ((openAccount P cfg L pub priv nullifier attestations bond now = spent L identity ∧
            ∀ shard, getShard P pub cfg.numShards = some shard →
              ¬ Signable P (openContent P pub nullifier attestations shard now) priv []) ∨
          ((∃ block, (openAccount P cfg L pub priv nullifier attestations bond now).2 =
              .created block) ∧
            ∃ shard, getShard P pub cfg.numShards = some shard ∧
              Signable P (openContent P pub nullifier attestations shard now) priv [])) := by
  unfold openAccount
  cases hheld : L.held.has pub with
  | true =>
    refine .inl ⟨rfl, fun identity admitted => ?_⟩
    rw [(JsMap.has_eq_false_iff _ _).mpr admitted.fresh] at hheld
    cases hheld
  | false =>
    have hfresh := (JsMap.has_eq_false_iff _ _).mp hheld
    simp only [Bool.false_eq_true, if_false]
    cases hquorum : (checkQuorum P attestations (deriveCommitment P nullifier pub)
        cfg.identityPolicy).ok with
    | false =>
      refine .inl ⟨rfl, fun identity admitted => ?_⟩
      rw [admitted.quorum] at hquorum
      cases hquorum
    | true =>
      cases hregister : L.identity.register P nullifier (deriveCommitment P nullifier pub)
          pub with
      | error reason =>
        refine .inl ⟨rfl, fun identity admitted => ?_⟩
        rw [admitted.registered] at hregister
        cases hregister
      | ok identity =>
        refine .inr ⟨identity, ⟨hfresh, hquorum, hregister⟩, ?_⟩
        cases hshard : getShard P pub cfg.numShards with
        | none => exact .inl ⟨rfl, fun _ h => by cases h⟩
        | some shard =>
          rcases createBlock_cases P (openContent P pub nullifier attestations shard now)
            priv [] with ⟨hunsigned, bytes, hcreate⟩ | ⟨hsigned, acc, block, hcreate⟩
          · unfold openContent at hcreate
            left
            simp only [Bool.not_true, Bool.false_eq_true, if_false, hcreate]
            refine ⟨rfl, fun shard' hshard' => ?_⟩
            rw [← Option.some.inj hshard']
            exact hunsigned
          · right
            refine ⟨⟨block, ?_⟩, shard, rfl, hsigned⟩
            unfold openContent at hcreate
            simp only [Bool.not_true, Bool.false_eq_true, if_false, hcreate]

omit [JsNumber F] in
theorem spent_ne {pub nullifier : Hex} {attestations : List TypedAttestation}
    {identity : IdentityRegistry}
    (admitted : OpenAdmitted P cfg L pub nullifier attestations identity) :
    (spent L identity).1 ≠ L := by
  intro heq
  have hidentity : identity = L.identity := congrArg (fun L' => L'.identity) heq
  have hregister := admitted.registered
  unfold IdentityRegistry.register at hregister
  split at hregister
  · cases hregister
  · rename_i hunused
    split at hregister
    · cases hregister
    · refine hunused ?_
      rw [← hidentity, ← Except.ok.inj hregister]
      exact (JsMap.has_iff _ _).mpr ⟨_, JsMap.get?_set_self _ _ _⟩

/-! ### One call, and every run -/

theorem nextAccepted_self [LawfulJsNumber F] (hdigest : ∀ b, P.sha256 b ≠ [])
    (hreach : Run.Reachable (step P cfg) (new P) L) : NextAccepted P L L :=
  fun c pub priv now now' block hauthor hkey hpeers hcreated =>
    (created_accepted_iff P cfg hdigest L hreach c pub priv now now' hauthor hkey block
      hcreated).mpr hpeers

/-- A call keeps the promise exactly when it does not sign in vain. -/
theorem intact_iff [LawfulJsNumber F] (hdigest : ∀ b, P.sha256 b ≠ [])
    (hreach : Run.Reachable (step P cfg) (new P) L) (c : Call F) :
    Intact P cfg L c ↔ ¬ SignsInVain P cfg L c := by
  have hself := nextAccepted_self hdigest hreach
  constructor
  · intro hintact hvain
    cases hvain with
    | opening pub priv nullifier attestations bond now identity admitted unsigned =>
      rcases openAccount_cases (P := P) cfg L pub priv nullifier attestations bond now
        with ⟨-, hnot⟩ | ⟨identity', admitted', ⟨hspent, -⟩ | ⟨-, shard, hshard, hsigned⟩⟩
      · exact hnot identity admitted
      · refine spent_ne admitted' (hintact (spent L identity') ?_ ?_).1
        · exact congrArg some hspent
        · exact fun block h => by cases h
      · exact unsigned shard hshard hsigned
    | creating c pub priv now h content effect drafted unsigned =>
      have hcall := drafted.createCall_eq cfg
      obtain ⟨bytes, heq⟩ := appendOwn_of_unsignable (L := L) effect unsigned
      obtain ⟨head, -, draft⟩ := drafted.draft
      rw [heq, draft.header.1] at hcall
      exact hold_ne drafted.stored bytes (hintact _ hcall fun block h => by cases h).1
  · intro hvain r hr hfails
    have hsame : r.1 = L := by
      rcases author_of_createCall hr with
        ⟨pub, priv, nullifier, attestations, bond, now, rfl⟩ | ⟨pub, priv, now, hauthor⟩
      · cases hr
        rcases openAccount_cases (P := P) cfg L pub priv nullifier attestations bond now
          with ⟨hsame, -⟩ | ⟨identity, admitted, ⟨-, hunsigned⟩ | ⟨⟨block, hcreated⟩, -⟩⟩
        · exact hsame
        · exact absurd (.opening _ _ _ _ _ _ identity admitted hunsigned) hvain
        · exact absurd hcreated (hfails block)
      · rcases createCall_cases hauthor hr with hsame | ⟨h, content, effect, drafted⟩
        · exact hsame
        · have hcall := drafted.createCall_eq cfg
          rw [hr, Option.some.injEq] at hcall
          have hsigned : Signable P content priv h.acc := by
            by_contra hunsigned
            exact hvain (.creating c pub priv now h content effect drafted hunsigned)
          obtain ⟨block, hcreated⟩ := appendOwn_of_signable (L := L) effect hsigned
          rw [← hcall] at hcreated
          exact absurd hcreated (hfails block)
    rw [hsame]
    exact ⟨rfl, hself⟩

/-- Along every run, failed calls leave the ledger as it is exactly when no call signs in vain. -/
theorem failed_creates_intact [LawfulJsNumber F] (P : Primitives F) (cfg : LedgerConfig)
    (hdigest : ∀ b, P.sha256 b ≠ []) (calls : List (Call F)) :
    Run.EveryStep (step P cfg) (fun L c _ => Intact P cfg L c) (new P) calls ↔
      Run.StepsMeet (step P cfg) (fun L c => ¬ SignsInVain P cfg L c) (new P) calls := by
  refine Run.everyStep_iff_stepsMeet (I := Run.Reachable (step P cfg) (new P))
    (R := fun L c _ => Intact P cfg L c) ?_ ?_ (Run.reachable_init _)
  · rintro L c ⟨before, rfl⟩
    exact ⟨before ++ [c], Run.final_append _ _ _ _⟩
  · exact fun L c hreach => intact_iff hdigest hreach c

end Intact

/-! ## A malformed key -/

theorem not_signsInVain {P : Primitives F} {cfg : LedgerConfig}
    (hkeys : ∀ message priv, (P.sign message priv).isSome = true) (hshards : 1 < cfg.numShards)
    (L : EngineLedger F) (c : Call F) : ¬ SignsInVain P cfg L c := by
  have hsignable : ∀ content priv acc, Signable P content priv acc := fun content priv acc =>
    ⟨_, append_computeContentHash P content acc, hkeys _ _⟩
  intro hvain
  cases hvain with
  | opening pub priv nullifier attestations bond now identity admitted unsigned =>
    have hshard : ∃ shard, getShard P pub cfg.numShards = some shard := by
      unfold getShard
      rw [if_neg (by omega), if_neg (by omega)]
      exact ⟨_, rfl⟩
    obtain ⟨shard, hshard⟩ := hshard
    exact unsigned shard hshard (hsignable _ _ _)
  | creating c pub priv now h content effect drafted unsigned => exact unsigned (hsignable _ _ _)

theorem failed_creates_intact_payer :
    Run.EveryStep (step Sample.primitives Sample.config)
      (fun L c _ => Intact Sample.primitives Sample.config L c) (new Sample.primitives)
      payerRun :=
  (failed_creates_intact Sample.primitives Sample.config (fun _ => List.cons_ne_nil _ _)
    payerRun).mpr (Run.stepsMeet_of_forall (fun L c => not_signsInVain (fun _ _ => rfl)
      (by decide) L c) _ _)

/-- The sample primitives, with one key that is malformed. -/
def strictPrimitives : Primitives Rat :=
  { Sample.primitives with
    sign := fun message priv =>
      if priv = "malformed" then none else Sample.primitives.sign message priv }

/-- Alice sets her name to something, and signs with `priv`. -/
def aliceRenames (priv : Hex) : Call Rat := .createUpdate "alice" [("name", "Alice")] priv 1

def strictPayer : EngineLedger Rat :=
  Run.final (step strictPrimitives Sample.config) (new strictPrimitives) payerRun

/-- A signature that throws leaves the accumulator of Alice ahead of her chain, and what she
creates next with her real key is refused by every peer. -/
theorem unsigned_update_moves_accumulator :
    (createUpdate strictPrimitives strictPayer "alice" [("name", "Alice")] "malformed" 1).2.block?
        = none ∧
      ((step strictPrimitives Sample.config strictPayer (aliceRenames "malformed")).held.get?
        "alice").map (fun h => (h.chain.length, h.acc.length)) = some (1, 2) ∧
      (created strictPrimitives strictPayer (aliceRenames "alice")).map
        (fun block => (addBlock strictPrimitives strictPayer block 2).2) = some .success ∧
      (created strictPrimitives
        (step strictPrimitives Sample.config strictPayer (aliceRenames "malformed"))
        (aliceRenames "alice")).map
          (fun block => decide ((addBlock strictPrimitives strictPayer block 2).2 = .success)) =
        some false := by
  decide +kernel

end NeuronWeb.EngineLedger
