/-
  Ledger/Reset: what a reset leaves behind.

  `reset` empties the chains, the indexes and the consensus state, but neither the spent
  nullifiers nor the settled baselines, the settlement periods and the liveness tracker.
  A reset is a restart when these are empty, and what survives shows in later answers.
-/
import NeuronWeb.Ledger.Node
import NeuronWeb.Ledger.Steps
import NeuronWeb.Ledger.Sample

set_option autoImplicit false

namespace NeuronWeb

variable {F : Type}

namespace EngineLedger

/-! ## The spent nullifiers -/

variable [JsNumber F] {P : Primitives F} {cfg : LedgerConfig} {L : EngineLedger F}

/-- The nullifier has been through the quorum of attestations for some account. -/
def Attested (P : Primitives F) (cfg : LedgerConfig) (nullifier : Hex) : Prop :=
  ∃ pub attestations, (checkQuorum P attestations (deriveCommitment P nullifier pub)
    cfg.identityPolicy).ok = true

omit [JsNumber F] in
theorem register_has {used used' : IdentityRegistry} {nullifier commitment pub x : Hex}
    (h : used.register P nullifier commitment pub = .ok used') (hx : used'.has x = true) :
    used.has x = true ∨ x = nullifier := by
  unfold IdentityRegistry.register at h
  split at h
  · cases h
  · split at h
    · cases h
    · cases h
      rw [JsMap.has_set, Bool.or_eq_true, decide_eq_true_eq] at hx
      exact hx.symm.imp id Eq.symm

omit [JsNumber F] in
theorem openAccount_identity (L : EngineLedger F) (pub priv nullifier : Hex)
    (attestations : List TypedAttestation) (bond : Bool) (now : Int) {x : Hex}
    (hx : (openAccount P cfg L pub priv nullifier attestations bond now).1.identity.has x = true) :
    L.identity.has x = true ∨ (x = nullifier ∧ Attested P cfg nullifier) := by
  unfold openAccount at hx
  split at hx
  · exact .inl hx
  · simp only at hx
    split at hx
    · exact .inl hx
    · rename_i hquorum
      rw [Bool.not_eq_true', Bool.not_eq_false] at hquorum
      have hattested : Attested P cfg nullifier := ⟨pub, attestations, hquorum⟩
      split at hx
      · exact .inl hx
      · rename_i identity hregister
        have hspent : identity.has x = true →
            L.identity.has x = true ∨ (x = nullifier ∧ Attested P cfg nullifier) :=
          fun h => (register_has hregister h).imp_right fun h => ⟨h, hattested⟩
        split at hx
        · exact hspent hx
        · split at hx
          · exact hspent hx
          · rename_i acc block hcreate
            apply hspent
            cases bond with
            | false => exact hx
            | true =>
              obtain ⟨registry, hbond, -⟩ := bondStake_eq
                (({ L with identity }.hold pub ⟨[block], acc⟩).indexBlock block) pub (some MINT)
              simp only [if_true, hbond] at hx
              exact hx

theorem CreateOutcome.identity {c : Call F} {pub priv : Hex} {now : Int}
    {r : EngineLedger F × CreateResult F} (outcome : CreateOutcome P L c pub priv now r) :
    r.1.identity = L.identity := by
  cases outcome with
  | refused error => rfl
  | thrown => rfl
  | drafted h head content effect stored last draft =>
    rcases appendOwn_cases (P := P) (L := L) h content priv effect with
      ⟨acc, heq⟩ | ⟨acc, block, -, heq⟩
    · rw [heq]
      rfl
    · rw [heq]
      exact (draft.sameChains
        ((L.hold content.accountId ⟨h.chain ++ [block], acc⟩).indexBlock block) block).identity

theorem addBlock_identity (L : EngineLedger F) (block : Block F) (now : Int) :
    (addBlock P L block now).1.identity = L.identity := by
  have outcome := addBlock_outcome P L block now
  generalize addBlock P L block now = result at outcome
  cases outcome with
  | unchanged r => rfl
  | emptied r authentic opens refused => rfl
  | forked h existing error authentic forks => exact (flagFork_sameHumans L existing block).identity
  | opened acc authentic opens root => exact (applyBlock_sameChains P _ block).identity
  | extended h head acc authentic links checked root =>
    exact (applyBlock_sameChains P _ block).identity

/-- A nullifier is spent by opening an account on it, and by nothing else. -/
theorem step_identity (P : Primitives F) (cfg : LedgerConfig) (L : EngineLedger F) (c : Call F)
    {x : Hex} (hx : (step P cfg L c).identity.has x = true) :
    L.identity.has x = true ∨ Attested P cfg x := by
  have hkept : (step P cfg L c).identity = L.identity →
      L.identity.has x = true ∨ Attested P cfg x :=
    fun h => .inl (h ▸ hx)
  cases hauthor : c.author with
  | some author =>
    obtain ⟨pub, priv, now⟩ := author
    obtain ⟨r, hstep, outcome⟩ := step_of_author P cfg L hauthor
    exact hkept (hstep ▸ outcome.identity)
  | none =>
    cases hclerical : c.clerical with
    | true => exact hkept (step_clerical P cfg L hclerical).identity
    | false =>
      cases c
      case openAccount =>
        rcases openAccount_identity L _ _ _ _ _ _ hx with h | ⟨rfl, h⟩
        · exact .inl h
        · exact .inr h
      case addBlock block now => exact hkept (addBlock_identity L block now)
      case applyEvidence ev => exact hkept (applyEvidence_sameHumans P L ev).identity
      case applyEvidenceFromBlocks a b =>
        exact hkept (applyEvidenceFromBlocks_sameHumans P L a b).identity
      case bondStake pub amount =>
        obtain ⟨_, h, -⟩ := bondStake_eq L pub amount
        exact hkept (by simp [step, h])
      case advanceEpoch betas active =>
        obtain ⟨_, _, _, _, _, h⟩ := advanceEpoch_eq P L betas active
        exact hkept (by simp [step, h])
      case applyCommitteeVote => exact hkept rfl
      case setDiscoveredProviders => exact hkept rfl
      case purgeAccount => exact hkept rfl
      case reset => exact hkept rfl
      all_goals simp [Call.author, Call.clerical] at hauthor hclerical

omit [JsNumber F] in
theorem openAccount_spent {pub nullifier : Hex} {attestations : List TypedAttestation}
    (hfresh : L.held.get? pub = none)
    (hquorum : (checkQuorum P attestations (deriveCommitment P nullifier pub)
      cfg.identityPolicy).ok = true) (hspent : L.identity.has nullifier = true) (priv : Hex)
    (bond : Bool) (now : Int) :
    ∃ error, (openAccount P cfg L pub priv nullifier attestations bond now).2 = .refused error := by
  refine ⟨"nullifier already used (one human, one account)", ?_⟩
  simp [openAccount, (JsMap.has_eq_false_iff _ _).mpr hfresh, hquorum, IdentityRegistry.register,
    hspent]

omit [JsNumber F] in
theorem openAccount_unspent {pub nullifier : Hex} {attestations : List TypedAttestation}
    (hfresh : L.held.get? pub = none)
    (hquorum : (checkQuorum P attestations (deriveCommitment P nullifier pub)
      cfg.identityPolicy).ok = true) (hunspent : L.identity.has nullifier = false) (priv : Hex)
    (bond : Bool) (now : Int) (error : String) :
    (openAccount P cfg L pub priv nullifier attestations bond now).2 ≠ .refused error := by
  have hregister : L.identity.register P nullifier (deriveCommitment P nullifier pub) pub =
      .ok (L.identity.set nullifier (deriveCommitment P nullifier pub)) := by
    simp [IdentityRegistry.register, hunspent]
  simp only [openAccount, (JsMap.has_eq_false_iff _ _).mpr hfresh, Bool.false_eq_true, if_false,
    hquorum, Bool.not_true, hregister]
  intro h
  split at h
  · cases h
  · split at h
    · cases h
    · cases h

end EngineLedger

/-! ## The liveness tracker -/

namespace CustodyLiveness

/-- Every provider with an observation is on the list of the providers seen. -/
structure Tracked (T : CustodyLiveness) : Prop where
  last : ∀ x, T.firstSeen.get? x = none → T.last.get? x = none
  failStreak : ∀ x, T.firstSeen.get? x = none → T.failStreak.get? x = none

theorem tracked_new : Tracked new := ⟨fun _ _ => rfl, fun _ _ => rfl⟩

variable {T : CustodyLiveness}

theorem get?_noteRegistered {provider x : Hex} {since : Int}
    (h : (T.noteRegistered provider since).firstSeen.get? x = none) :
    T.firstSeen.get? x = none ∧ provider ≠ x := by
  unfold noteRegistered at h
  split at h
  · rename_i hhas
    refine ⟨h, ?_⟩
    intro hx
    rw [hx, (JsMap.has_eq_false_iff _ _).mpr h] at hhas
    cases hhas
  · rw [JsMap.get?_set] at h
    split at h
    · cases h
    · rename_i hx
      exact ⟨h, hx⟩

theorem Tracked.noteRegistered (h : Tracked T) (provider : Hex)
    (since : Int) : Tracked (T.noteRegistered provider since) := by
  have hsame : (T.noteRegistered provider since).last = T.last ∧
      (T.noteRegistered provider since).failStreak = T.failStreak := by
    unfold CustodyLiveness.noteRegistered
    split <;> exact ⟨rfl, rfl⟩
  refine ⟨fun x hx => ?_, fun x hx => ?_⟩
  · rw [hsame.1]
    exact h.last x (get?_noteRegistered hx).1
  · rw [hsame.2]
    exact h.failStreak x (get?_noteRegistered hx).1

theorem Tracked.record (h : Tracked T) (provider : Hex) (ok : Bool)
    (now : Int) : Tracked (T.record provider ok now) := by
  have hnoted := h.noteRegistered provider now
  refine ⟨fun x hx => ?_, fun x hx => ?_⟩
  · change (JsMap.set _ provider _).get? x = none
    rw [JsMap.get?_set_ne _ _ (get?_noteRegistered hx).2]
    exact hnoted.last x hx
  · change (JsMap.set _ provider _).get? x = none
    rw [JsMap.get?_set_ne _ _ (get?_noteRegistered hx).2]
    exact hnoted.failStreak x hx

theorem exists_silent {provider : Hex} {since : Int}
    (h : T.firstSeen.get? provider = some since) (maxSilenceMs : Int) :
    ∃ now, T.isLive provider now maxSilenceMs = false := by
  cases hlast : T.last.get? provider with
  | some obs =>
    refine ⟨obs.seenAt + maxSilenceMs, ?_⟩
    simp [isLive, hlast]
  | none =>
    refine ⟨since + maxSilenceMs, ?_⟩
    simp [isLive, hlast, h]

theorem isLive_new (provider : Hex) (since now maxSilenceMs : Int)
    (hgrace : now - since < maxSilenceMs) :
    (new.noteRegistered provider since).isLive provider now maxSilenceMs = true := by
  simp [new, noteRegistered, isLive, consecutiveFailures, FAILURES_BEFORE_EVICTION, hgrace]

theorem Tracked.eq_new {T : CustodyLiveness} (h : Tracked T)
    (hnobody : ∀ x, T.firstSeen.get? x = none) : T = new := by
  obtain ⟨last, failStreak, firstSeen⟩ := T
  have hlast : last = JsMap.empty := JsMap.eq_empty fun x => h.last x (hnobody x)
  have hstreak : failStreak = JsMap.empty := JsMap.eq_empty fun x => h.failStreak x (hnobody x)
  have hseen : firstSeen = JsMap.empty := JsMap.eq_empty hnobody
  subst hlast hstreak hseen
  rfl

end CustodyLiveness

/-! ## Resetting a node -/

namespace NodeLedger

open EngineLedger CustodyLiveness

variable [JsNumber F] {P : Primitives F} {cfg : LedgerConfig} {maxOfflineMs : Int}
  {n : NodeLedger F}

/-- What a reset does not forget is empty. -/
structure Forgettable (n : NodeLedger F) : Prop where
  identity : n.ledger.identity = JsMap.empty
  settledBytes : n.ledger.providerLedger.settledBytes = JsMap.empty
  lastSettledPeriod : n.ledger.providerLedger.lastSettledPeriod = JsMap.empty
  liveness : n.liveness = CustodyLiveness.new

theorem reset_eq_new_iff : step P cfg maxOfflineMs n (.call .reset) = new P ↔ Forgettable n := by
  constructor
  · intro h
    have hledger := congrArg NodeLedger.ledger h
    have hproviders := congrArg EngineLedger.providerLedger hledger
    exact
      { identity := congrArg EngineLedger.identity hledger
        settledBytes := congrArg ProviderLedger.settledBytes hproviders
        lastSettledPeriod := congrArg ProviderLedger.lastSettledPeriod hproviders
        liveness := congrArg NodeLedger.liveness h }
  · intro h
    change NodeLedger.mk { EngineLedger.new P with
      identity := n.ledger.identity
      providerLedger := n.ledger.providerLedger.clear } n.liveness = new P
    have hclear : n.ledger.providerLedger.clear = ProviderLedger.new := by
      simp [ProviderLedger.clear, ProviderLedger.new, h.settledBytes, h.lastSettledPeriod]
    rw [hclear, h.identity, h.liveness]
    rfl

/-! ## What survives -/

/-- What a run says about the state that survives a reset. -/
structure Traced (P : Primitives F) (cfg : LedgerConfig) (n : NodeLedger F) : Prop where
  nullifiers : ∀ x, n.ledger.identity.has x = true → Attested P cfg x
  tracked : Tracked n.liveness

omit [JsNumber F] in
theorem traced_new : Traced P cfg (new P) where
  nullifiers _ h := by cases h
  tracked := tracked_new

theorem tracked_isLive (L : ProviderLedger F) {T : CustodyLiveness} (h : Tracked T) (pub : Hex)
    (now : Int) : Tracked (L.isLive maxOfflineMs T pub now).2 := by
  unfold ProviderLedger.isLive
  split
  · exact h
  · split
    · exact h
    · exact h.noteRegistered _ _

theorem tracked_liveProviders (L : ProviderLedger F) {T : CustodyLiveness} (h : Tracked T)
    (now : Int) : Tracked (L.liveProviders maxOfflineMs T now).2 := by
  have hfold : ∀ (ps : List (StorageProviderState F))
      (kept : List (StorageProviderState F) × CustodyLiveness), Tracked kept.2 →
      Tracked (ps.foldl (L.keepLive maxOfflineMs now) kept).2 := by
    intro ps
    induction ps with
    | nil => exact fun _ h => h
    | cons p rest ih =>
      intro kept hkept
      exact ih _ (tracked_isLive L hkept p.pub now)
  exact hfold _ _ h

theorem Traced.step (h : Traced P cfg n) (c : NodeCall F) :
    Traced P cfg (step P cfg maxOfflineMs n c) := by
  cases c with
  | call c =>
    refine ⟨fun x hx => ?_, h.tracked⟩
    rcases step_identity P cfg n.ledger c hx with hold | hattested
    · exact h.nullifiers x hold
    · exact hattested
  | observe provider ok now => exact ⟨h.nullifiers, h.tracked.record provider ok now⟩
  | telemetry pub w => exact ⟨h.nullifiers, h.tracked⟩
  | isProviderLive pub now => exact ⟨h.nullifiers, tracked_isLive _ h.tracked pub now⟩
  | liveStorageProviders now => exact ⟨h.nullifiers, tracked_liveProviders _ h.tracked now⟩
  | settledFor pub => exact h

theorem traced_final (history : List (NodeCall F)) :
    Traced P cfg (Run.final (NodeLedger.step P cfg maxOfflineMs) (new P) history) :=
  Run.invariant_reachable traced_new (fun _ c h => h.step c) ⟨history, rfl⟩

/-- Any sequence of operations answers the same after the reset as on a new node. -/
def Restarts (P : Primitives F) (cfg : LedgerConfig) (maxOfflineMs : Int) (n : NodeLedger F) :
    Prop :=
  ∀ later, answers P cfg maxOfflineMs (step P cfg maxOfflineMs n (.call .reset)) later =
    answers P cfg maxOfflineMs (new P) later

theorem Forgettable.restarts (h : Forgettable n) : Restarts P cfg maxOfflineMs n := by
  intro later
  rw [reset_eq_new_iff.mpr h]

theorem Restarts.identity (h : Restarts P cfg maxOfflineMs n) (hn : Traced P cfg n) :
    n.ledger.identity = JsMap.empty := by
  refine JsMap.eq_empty fun x => ?_
  rw [← JsMap.has_eq_false_iff]
  cases hspent : n.ledger.identity.has x with
  | false => rfl
  | true =>
    obtain ⟨pub, attestations, hquorum⟩ := hn.nullifiers x hspent
    have hsame := h [.call (.openAccount pub "" x attestations false 0)]
    obtain ⟨error, hrefused⟩ := openAccount_spent (L := n.ledger.reset P) (JsMap.get?_empty pub)
      hquorum hspent "" false 0
    have hanswer : Answer.created (openAccount P cfg (n.ledger.reset P) pub "" x attestations
        false 0).2 = .created (openAccount P cfg (EngineLedger.new P) pub "" x attestations
        false 0).2 := (List.cons.inj hsame).1
    rw [hrefused] at hanswer
    exact absurd (Answer.created.inj hanswer).symm
      (openAccount_unspent (JsMap.get?_empty pub) hquorum (JsMap.has_empty x) "" false 0 error)

theorem Restarts.settledFor (h : Restarts P cfg maxOfflineMs n) (pub : Hex) :
    n.ledger.providerLedger.settledFor pub = JsMap.empty := by
  have hsame := h [.settledFor pub]
  exact Answer.baselines.inj (List.cons.inj hsame).1

/-- A record that discovery may hand out for any account. -/
def listed (pub : Hex) (registeredAt : Int) : StorageProviderState F where
  pub
  deviceId := ""
  registeredAt
  capacityGB := JsNumber.ofInt 1
  deviceClass := none
  declaredConcurrency := none
  lastActualStoredBytes := JsNumber.ofInt 0
  lastHeartbeat := 0
  heartbeatsLast24h := JsNumber.ofInt 0
  smokeAddr := none
  countryCode := none
  avgLatencyMs := JsNumber.ofInt 0
  spotCheckPassRate := JsNumber.ofInt 1
  score := JsNumber.ofInt 1

theorem isLive_listed [LawfulJsNumber F] (n : NodeLedger F) (pub : Hex)
    (registeredAt now : Int) (hproviders : n.ledger.providerLedger.providers = JsMap.empty) :
    answers P cfg maxOfflineMs n
        [.call (.setDiscoveredProviders [listed pub registeredAt]), .isProviderLive pub now] =
      [.done,
        .flag ((n.liveness.noteRegistered pub registeredAt).isLive pub now maxOfflineMs)] := by
  have hcapacity : JsNumber.le (JsNumber.ofInt 1 : F) (JsNumber.ofInt 0) = false :=
    JsNumber.le_eq_false_of_lt _ _ (LawfulJsNumber.zero_lt_ofInt 1 (by decide))
  have hget : (n.ledger.providerLedger.setDiscovered [listed pub registeredAt]).get pub =
      some (listed pub registeredAt) := by
    simp [ProviderLedger.get, ProviderLedger.setDiscovered, hproviders, listed]
  have hlive : (n.ledger.providerLedger.setDiscovered [listed pub registeredAt]).isLive
      maxOfflineMs n.liveness pub now =
      ((n.liveness.noteRegistered pub registeredAt).isLive pub now maxOfflineMs,
        n.liveness.noteRegistered pub registeredAt) := by
    unfold ProviderLedger.isLive
    rw [hget]
    simp only [listed, hcapacity, Bool.false_eq_true, if_false]
  have hanswer : (respond P cfg maxOfflineMs (NodeLedger.step P cfg maxOfflineMs n
      (.call (.setDiscoveredProviders [listed pub registeredAt]))) (.isProviderLive pub now)).2 =
      .flag (((n.ledger.providerLedger.setDiscovered [listed pub registeredAt]).isLive
        maxOfflineMs n.liveness pub now).1) := rfl
  rw [hlive] at hanswer
  simp only [answers, hanswer]
  rfl

theorem Restarts.liveness [LawfulJsNumber F] (h : Restarts P cfg maxOfflineMs n)
    (hn : Traced P cfg n) : n.liveness = CustodyLiveness.new := by
  refine hn.tracked.eq_new fun x => ?_
  cases hseen : n.liveness.firstSeen.get? x with
  | none => rfl
  | some since =>
    obtain ⟨now, hsilent⟩ := exists_silent hseen maxOfflineMs
    have hnoted : n.liveness.noteRegistered x (now - maxOfflineMs + 1) = n.liveness := by
      simp [noteRegistered, JsMap.has, hseen]
    have hsame := h [.call (.setDiscoveredProviders [listed x (now - maxOfflineMs + 1)]),
      .isProviderLive x now]
    rw [isLive_listed _ _ _ _ rfl, isLive_listed _ _ _ _ rfl] at hsame
    have hgrace := isLive_new x (now - maxOfflineMs + 1) now maxOfflineMs (by omega)
    have hflag := Answer.flag.inj (List.cons.inj (List.cons.inj hsame).2).1
    change (n.liveness.noteRegistered x (now - maxOfflineMs + 1)).isLive x now maxOfflineMs =
      (CustodyLiveness.new.noteRegistered x (now - maxOfflineMs + 1)).isLive x now
        maxOfflineMs at hflag
    rw [hnoted, hsilent, hgrace] at hflag
    cases hflag

/-! ## A reset and a restart -/

/-- After any history, a reset is a restart when the four parts that it keeps are empty; and
a reset that is a restart finds no spent nullifier, no baseline and no provider seen. -/
theorem reset_restarts [LawfulJsNumber F] (P : Primitives F) (cfg : LedgerConfig)
    (maxOfflineMs : Int) (history : List (NodeCall F)) :
    let n := Run.final (step P cfg maxOfflineMs) (new P) history
    (Forgettable n → Restarts P cfg maxOfflineMs n) ∧
      (Restarts P cfg maxOfflineMs n → n.ledger.identity = JsMap.empty ∧
        (∀ pub, n.ledger.providerLedger.settledFor pub = JsMap.empty) ∧
          n.liveness = CustodyLiveness.new) := by
  intro n
  have hn : Traced P cfg n := traced_final history
  refine ⟨fun h => h.restarts, fun h => ?_⟩
  exact ⟨h.identity hn, h.settledFor, h.liveness hn⟩

/-- A node that has registered a user and nothing else. -/
def directoryHistory : List (NodeCall Rat) := [.call (.registerAccount ⟨"bob", "bob"⟩)]

theorem reset_restarts_directory :
    Restarts Sample.primitives Sample.config 5
      (Run.final (step Sample.primitives Sample.config 5) (new Sample.primitives)
        directoryHistory) :=
  (reset_restarts Sample.primitives Sample.config 5 directoryHistory).1
    { identity := rfl, settledBytes := rfl, lastSettledPeriod := rfl, liveness := rfl }

/-- Alice opens her account, the network is reset, and Alice cannot open it again. -/
theorem reset_refuses_alice :
    ¬ ∀ history : List (NodeCall Rat), Restarts Sample.primitives Sample.config 5
      (Run.final (step Sample.primitives Sample.config 5) (new Sample.primitives) history) := by
  intro hall
  let opens : NodeCall Rat := .call (.openAccount "alice" "alice" "nullifier" [] false 0)
  have hspent : ((Run.final (step Sample.primitives Sample.config 5) (new Sample.primitives)
      [opens]).ledger.identity).has "nullifier" = true := by decide +kernel
  have hempty := (hall [opens]).identity (traced_final [opens])
  rw [hempty] at hspent
  cases hspent

end NodeLedger

end NeuronWeb
