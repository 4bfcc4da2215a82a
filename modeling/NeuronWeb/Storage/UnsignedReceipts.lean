/-
  Storage/UnsignedReceipts: what a receipt without a signature moves.

  `handleReceipt` looks at the signature before it stores a byte count, and nowhere else.
  `untouched_iff` says exactly which unsigned receipts leave custody, liveness and the metrics
  of the providers as they were, `forged_receipts_release` is a pair of them after which the
  publisher gives up its copy.
-/
import NeuronWeb.Storage.Custody

set_option autoImplicit false

namespace NeuronWeb

variable {F : Type} [JsNumber F]

/-! ## What is asked -/

/-- Who has to have signed a receipt: the provider its own, the requester one about another. -/
def ReceiptMessage.signer (r : ReceiptMessage F) : Hex :=
  if r.requesterPub = r.providerPub then r.providerPub else r.requesterPub

/-- The signature does not verify. -/
def ReceiptMessage.Unsigned (E : StorageEnv F) (r : ReceiptMessage F) : Prop :=
  E.verifyMsg r.signature r.payload r.signer = false

namespace CustodyManager

/-- Custody, liveness, the metrics of the providers and the own blocks are as they were, and no
release of the publisher's copy, which deletes blocks once the holders have answered, has
begun. -/
structure Untouched (s s' : CustodyManager F) : Prop where
  confirmed : s'.trackedCids = s.trackedCids
  liveness : s'.liveness = s.liveness
  correlation : s'.failureCorrelation = s.failureCorrelation
  metrics : s'.ledger.providerLedger.providers = s.ledger.providerLedger.providers
  blocks : ∀ cid, s'.store.getBlock cid = s.store.getBlock cid
  releases : s'.releases = s.releases

/-- The tracker has heard of a provider, if it is registered at all. -/
def Known (L : ProviderLedger F) (T : CustodyLiveness) (pub : Hex) : Prop :=
  ∀ p, L.get pub = some p → JsNumber.le p.capacityGB (JsNumber.ofInt 0) = false →
    T.firstSeen.has pub = true

variable (E : CustodyEnv F)

/-- A release of the publisher's copy is due. -/
structure ReleaseDue (s : CustodyManager F) (cid : Cid) (tracked : TrackedCid) (now : Int) :
    Prop where
  live : MIN_REPLICAS ≤ (s.liveHolderCount E tracked.confirmedProviders now).1
  own : s.localKeys.has tracked.ownerPub = true
  kept : s.releasedCids.has cid = false

/-- A success of the provider at this time has been noted before. -/
structure Repeated (s : CustodyManager F) (r : ReceiptMessage F) (tracked : TrackedCid)
    (now : Int) : Prop where
  confirmed : tracked.confirmedProviders.has r.providerPub = true
  known : ∀ pub ∈ tracked.confirmedProviders.keys, Known s.ledger.providerLedger s.liveness pub
  liveness : s.liveness.record r.providerPub true now = s.liveness
  correlation : s.failureCorrelation.record r.providerPub true now = s.failureCorrelation

/-- ... and the release of the publisher's copy does not wait for it. -/
structure Noted (s : CustodyManager F) (r : ReceiptMessage F) (tracked : TrackedCid) (now : Int) :
    Prop extends Repeated s r tracked now where
  notDue : ¬ ReleaseDue E s r.cid tracked now

/-- The provider's record shows what the receipt makes of it: the figures of the window, and the
stored bytes if the provider itself has signed them. -/
structure OnRecord (s : CustodyManager F) (r : ReceiptMessage F) (now : Int)
    (p : StorageProviderState F) : Prop where
  storedBytes : ∀ bytes, r.actualStoredBytes = some bytes →
    E.verifyMsg r.signature r.payload r.providerPub = true → p.lastActualStoredBytes = bytes
  passRate : p.spotCheckPassRate = passRate (s.window E r now)
  latency : ∀ mean, meanLatency (s.window E r now) = some mean → p.avgLatencyMs = mean

/-- A receipt says nothing new: it reports no success for a tracked CID, or one that is noted; and
it is the provider's own, or about a provider without a record, or all of it is on record. -/
structure NothingNew (s : CustodyManager F) (r : ReceiptMessage F) (now : Int) : Prop where
  success : r.success = true → ∀ tracked, s.trackedCids.get? r.cid = some tracked →
    Noted E s r tracked now
  record : r.requesterPub ≠ r.providerPub → ∀ p, s.provider? r.providerPub = some p →
    OnRecord E s r now p

/-! ## The tracker -/

section Tracker

/-- Questions about liveness leave a tracker that has heard of more providers at most. -/
structure Grows (T T' : CustodyLiveness) : Prop where
  last : T'.last = T.last
  failStreak : T'.failStreak = T.failStreak
  firstSeen : ∀ pub, T.firstSeen.has pub = true → T'.firstSeen.has pub = true

theorem Grows.refl (T : CustodyLiveness) : Grows T T := ⟨rfl, rfl, fun _ h => h⟩

theorem Grows.trans {T T' T'' : CustodyLiveness} (h : Grows T T') (h' : Grows T' T'') :
    Grows T T'' :=
  ⟨h'.last.trans h.last, h'.failStreak.trans h.failStreak,
    fun pub hpub => h'.firstSeen pub (h.firstSeen pub hpub)⟩

theorem grows_noteRegistered (T : CustodyLiveness) (pub : Hex) (since : Int) :
    Grows T (T.noteRegistered pub since) := by
  unfold CustodyLiveness.noteRegistered
  split
  · exact .refl T
  · refine ⟨rfl, rfl, fun pub' h => ?_⟩
    rw [JsMap.has_set, h, Bool.or_true]

theorem has_noteRegistered (T : CustodyLiveness) (pub : Hex) (since : Int) :
    (T.noteRegistered pub since).firstSeen.has pub = true := by
  unfold CustodyLiveness.noteRegistered
  split
  · next h => exact h
  · rw [JsMap.has_set, decide_eq_true rfl, Bool.true_or]

theorem noteRegistered_of_has {T : CustodyLiveness} {pub : Hex} (since : Int)
    (h : T.firstSeen.has pub = true) : T.noteRegistered pub since = T := by
  simp only [CustodyLiveness.noteRegistered, h, if_true]

variable (L : ProviderLedger F) (maxOfflineMs : Int)

theorem grows_isLive (T : CustodyLiveness) (pub : Hex) (now : Int) :
    Grows T (L.isLive maxOfflineMs T pub now).2 := by
  unfold ProviderLedger.isLive
  split
  · exact .refl T
  · split
    · exact .refl T
    · exact grows_noteRegistered T pub _

theorem known_isLive (T : CustodyLiveness) (pub : Hex) (now : Int) :
    Known L (L.isLive maxOfflineMs T pub now).2 pub := by
  intro p hp hcapacity
  simp only [ProviderLedger.isLive, hp, hcapacity, Bool.false_eq_true, if_false]
  exact has_noteRegistered T pub p.registeredAt

theorem Known.mono {T T' : CustodyLiveness} {pub : Hex} (h : Known L T pub) (hgrows : Grows T T') :
    Known L T' pub :=
  fun p hp hcapacity => hgrows.firstSeen pub (h p hp hcapacity)

theorem isLive_of_known {T : CustodyLiveness} {pub : Hex} (h : Known L T pub) (now : Int) :
    (L.isLive maxOfflineMs T pub now).2 = T := by
  unfold ProviderLedger.isLive
  split
  · rfl
  · next p hp =>
      split
      · rfl
      · next hcapacity => exact noteRegistered_of_has _ (h p hp (by simpa using hcapacity))

theorem record_eq_self {T : CustodyLiveness} {pub : Hex} {now : Int}
    (hseen : T.firstSeen.has pub = true) (hlast : T.last.get? pub = some ⟨true, now⟩)
    (hstreak : T.failStreak.get? pub = some 0) : T.record pub true now = T := by
  simp only [CustodyLiveness.record, noteRegistered_of_has now hseen, if_true,
    JsMap.set_eq_self hlast, JsMap.set_eq_self hstreak]

end Tracker

/-! ## Counting holders -/

section Counting

variable {E : CustodyEnv F} {s : CustodyManager F}

theorem grows_keepHolder (now : Int) (kept : List Hex × CustodyLiveness) (pub : Hex) :
    Grows kept.2 (s.keepHolder E now kept pub).2 :=
  grows_isLive s.ledger.providerLedger E.maxOfflineMs kept.2 pub now

theorem grows_keepHolders (holders : List Hex) (now : Int) (kept : List Hex × CustodyLiveness) :
    Grows kept.2 (holders.foldl (s.keepHolder E now) kept).2 := by
  induction holders generalizing kept with
  | nil => exact .refl kept.2
  | cons pub rest ih => exact (grows_keepHolder now kept pub).trans (ih _)

theorem known_keepHolders (holders : List Hex) (now : Int) (kept : List Hex × CustodyLiveness) :
    ∀ pub ∈ holders,
      Known s.ledger.providerLedger (holders.foldl (s.keepHolder E now) kept).2 pub := by
  induction holders generalizing kept with
  | nil =>
    intro pub hpub
    cases hpub
  | cons first rest ih =>
    intro pub hpub
    rcases List.mem_cons.mp hpub with rfl | hpub
    · have hknown : Known s.ledger.providerLedger (s.keepHolder E now kept pub).2 pub :=
        known_isLive s.ledger.providerLedger E.maxOfflineMs kept.2 pub now
      exact hknown.mono _ (grows_keepHolders rest now _)
    · exact ih _ pub hpub

theorem keepHolders_of_known (holders : List Hex) (now : Int)
    (kept : List Hex × CustodyLiveness)
    (h : ∀ pub ∈ holders, Known s.ledger.providerLedger kept.2 pub) :
    (holders.foldl (s.keepHolder E now) kept).2 = kept.2 := by
  induction holders generalizing kept with
  | nil => rfl
  | cons pub rest ih =>
    have hstep : (s.keepHolder E now kept pub).2 = kept.2 :=
      isLive_of_known _ _ (h pub List.mem_cons_self) now
    rw [List.foldl_cons, ih, hstep]
    intro pub' hpub'
    rw [hstep]
    exact h pub' (List.mem_cons_of_mem pub hpub')

/-- A state whose domain cache has been looked at. -/
def looked (E : CustodyEnv F) (s : CustodyManager F) (now : Int) : CustodyManager F :=
  { s with domainCache := some (s.domains E now) }

theorem domains_looked (now : Int) : (looked E s now).domains E now = s.domains E now := by
  have hlooked : (looked E s now).domains E now =
      if E.heartbeatIntervalMs < 4 * (now - (s.domains E now).2) then
        (inferDomains F s.ledger.providerLedger.providers.keys s.failureCorrelation s.declared, now)
      else s.domains E now := rfl
  rw [hlooked]
  split
  · next hstale =>
      unfold domains at hstale ⊢
      cases hcache : s.domainCache with
      | none => rfl
      | some cache =>
        rw [hcache] at hstale
        dsimp only at hstale ⊢
        split
        · rfl
        · next hfresh =>
            rw [if_neg hfresh] at hstale
            exact absurd hstale hfresh
  · rfl

theorem liveHolderCount_of_known {confirmed : JsSet Hex} (now : Int)
    (h : ∀ pub ∈ confirmed.keys, Known s.ledger.providerLedger s.liveness pub) :
    (s.liveHolderCount E confirmed now).2 = looked E s now := by
  have hliveness : (s.liveHolders E confirmed.keys now).2 = s.liveness :=
    keepHolders_of_known confirmed.keys now ([], s.liveness) h
  have hcount : (s.liveHolderCount E confirmed now).2 =
      { looked E s now with liveness := (s.liveHolders E confirmed.keys now).2 } := rfl
  rw [hcount, hliveness]
  rfl

theorem count_looked (confirmed : JsSet Hex) (now : Int) :
    ((looked E s now).liveHolderCount E confirmed now).1 =
      (s.liveHolderCount E confirmed now).1 := by
  have hdomain : (looked E s now).domainOf E now = s.domainOf E now := by
    funext pub
    unfold domainOf
    rw [domains_looked]
    rfl
  have hcount : ((looked E s now).liveHolderCount E confirmed now).1 =
      (((s.liveHolders E confirmed.keys now).1.map
        ((looked E s now).domainOf E now)).eraseDups).length := rfl
  rw [hcount, hdomain]
  rfl

theorem releaseDue_looked {cid : Cid} {tracked : TrackedCid} {now : Int} :
    ReleaseDue E (looked E s now) cid tracked now ↔ ReleaseDue E s cid tracked now := by
  constructor
  · rintro ⟨hlive, hown, hkept⟩
    rw [count_looked] at hlive
    exact ⟨hlive, hown, hkept⟩
  · rintro ⟨hlive, hown, hkept⟩
    refine ⟨?_, hown, hkept⟩
    rw [count_looked]
    exact hlive

/-- A call of `releasePublisherCopy` does nothing, counts the holders, or waits for them. -/
theorem releasePublisherCopy_cases (cid : Cid) (now : Int) :
    (∃ tracked release, s.trackedCids.get? cid = some tracked ∧ ReleaseDue E s cid tracked now ∧
      s.releasePublisherCopy E cid now =
        { (s.liveHolderCount E tracked.confirmedProviders now).2 with
          releases := s.releases ++ [some release] }) ∨
    (∀ tracked, s.trackedCids.get? cid = some tracked → ¬ ReleaseDue E s cid tracked now) ∧
      (s.releasePublisherCopy E cid now = s ∨
        ∃ tracked, s.trackedCids.get? cid = some tracked ∧ s.releasePublisherCopy E cid now =
          (s.liveHolderCount E tracked.confirmedProviders now).2) := by
  cases htracked : s.trackedCids.get? cid with
  | none =>
    refine .inr ⟨fun tracked h => (by cases h), .inl ?_⟩
    simp only [releasePublisherCopy, htracked]
  | some tracked =>
    cases hown : s.localKeys.has tracked.ownerPub with
    | false =>
      refine .inr ⟨?_, .inl ?_⟩
      · intro tracked' h hdue
        cases h
        cases hown.symm.trans hdue.own
      · simp only [releasePublisherCopy, htracked, hown, if_true]
    | true =>
      cases hreleased : s.releasedCids.has cid with
      | true =>
        refine .inr ⟨?_, .inl ?_⟩
        · intro tracked' h hdue
          cases h
          cases hreleased.symm.trans hdue.kept
        · simp only [releasePublisherCopy, htracked, hown, hreleased, Bool.true_eq_false,
            if_false, if_true]
      | false =>
        by_cases hlive : (s.liveHolderCount E tracked.confirmedProviders now).1 < MIN_REPLICAS
        · refine .inr ⟨?_, .inr ⟨tracked, rfl, ?_⟩⟩
          · intro tracked' h hdue
            cases h
            exact absurd hdue.live (by omega)
          · simp only [releasePublisherCopy, htracked, hown, hreleased, Bool.true_eq_false,
              Bool.false_eq_true, if_false, if_pos hlive]
        · refine .inl ⟨tracked, ⟨cid, tracked.additionalCids,
            (s.liveHolderCount E tracked.confirmedProviders now).2.asked E
              tracked.confirmedProviders now⟩, rfl, ⟨by omega, hown, hreleased⟩, ?_⟩
          simp only [releasePublisherCopy, htracked, hown, hreleased, Bool.true_eq_false,
            Bool.false_eq_true, if_false, if_neg hlive]
          rfl

end Counting

/-! ## A success -/

section Success

variable {E : CustodyEnv F} {s : CustodyManager F} {r : ReceiptMessage F} {tracked : TrackedCid}
  {now : Int}

/-- The provider among the confirmed ones. -/
def withHolder (tracked : TrackedCid) (pub : Hex) : TrackedCid :=
  { tracked with confirmedProviders := JsSet.add tracked.confirmedProviders pub }

/-- The state in which `handleReceipt` counts the holders again. -/
def confirmed (E : CustodyEnv F) (s : CustodyManager F) (tracked : TrackedCid)
    (r : ReceiptMessage F) (now : Int) : CustodyManager F :=
  let s := (s.liveHolderCount E tracked.confirmedProviders now).2
  { s with
    trackedCids := s.trackedCids.set r.cid (withHolder tracked r.providerPub)
    failureCorrelation := s.failureCorrelation.record r.providerPub true now
    liveness := s.liveness.record r.providerPub true now }

theorem confirmHolder_eq : s.confirmHolder E tracked r now =
    let counted := (confirmed E s tracked r now).liveHolderCount E
      (withHolder tracked r.providerPub).confirmedProviders now
    if MIN_REPLICAS ≤ counted.1 then counted.2.releasePublisherCopy E r.cid now else counted.2 :=
  rfl

theorem releasePublisherCopy_frame (cid : Cid) (now : Int) :
    let s' := s.releasePublisherCopy E cid now
    s'.trackedCids = s.trackedCids ∧ s'.failureCorrelation = s.failureCorrelation ∧
      s'.ledger = s.ledger ∧ s'.store = s.store ∧ s'.receipts = s.receipts ∧
      Grows s.liveness s'.liveness ∧ ∃ more, s'.releases = s.releases ++ more := by
  have hgrows (tracked : TrackedCid) :
      Grows s.liveness (s.liveHolderCount E tracked.confirmedProviders now).2.liveness :=
    grows_keepHolders tracked.confirmedProviders.keys now ([], s.liveness)
  obtain ⟨tracked, release, -, -, heq⟩ | ⟨-, heq | ⟨tracked, -, heq⟩⟩ :=
    releasePublisherCopy_cases (E := E) (s := s) cid now
  · rw [heq]
    exact ⟨rfl, rfl, rfl, rfl, rfl, hgrows tracked, [some release], rfl⟩
  · rw [heq]
    exact ⟨rfl, rfl, rfl, rfl, rfl, .refl s.liveness, [], (List.append_nil _).symm⟩
  · rw [heq]
    exact ⟨rfl, rfl, rfl, rfl, rfl, hgrows tracked, [], (List.append_nil _).symm⟩

theorem confirmHolder_frame (tracked : TrackedCid) (now : Int) :
    let s' := s.confirmHolder E tracked r now
    s'.trackedCids = s.trackedCids.set r.cid (withHolder tracked r.providerPub) ∧
      s'.failureCorrelation = s.failureCorrelation.record r.providerPub true now ∧
      s'.ledger = s.ledger ∧ s'.store = s.store ∧ s'.receipts = s.receipts ∧
      Grows (confirmed E s tracked r now).liveness s'.liveness ∧
      ∃ more, s'.releases = s.releases ++ more := by
  have hgrows : Grows (confirmed E s tracked r now).liveness
      ((confirmed E s tracked r now).liveHolderCount E
        (withHolder tracked r.providerPub).confirmedProviders now).2.liveness :=
    grows_keepHolders _ now ([], (confirmed E s tracked r now).liveness)
  rw [confirmHolder_eq]
  dsimp only
  split
  · obtain ⟨htracked, hcorrelation, hledger, hstore, hreceipts, hmore, hreleases⟩ :=
      releasePublisherCopy_frame (E := E)
        (s := ((confirmed E s tracked r now).liveHolderCount E
          (withHolder tracked r.providerPub).confirmedProviders now).2) r.cid now
    exact ⟨htracked, hcorrelation, hledger, hstore, hreceipts, hgrows.trans hmore, hreleases⟩
  · exact ⟨rfl, rfl, rfl, rfl, rfl, hgrows, [], (List.append_nil _).symm⟩

section

variable (htracked : s.trackedCids.get? r.cid = some tracked)
include htracked

theorem confirmed_of_repeated (h : Repeated s r tracked now) :
    confirmed E s tracked r now = looked E s now ∧
      withHolder tracked r.providerPub = tracked := by
  have hholder : withHolder tracked r.providerPub = tracked := by
    obtain ⟨⟨⟩, hget⟩ := (JsMap.has_iff _ _).mp h.confirmed
    have hadd : JsSet.add tracked.confirmedProviders r.providerPub =
        tracked.confirmedProviders := JsMap.set_eq_self hget
    rw [withHolder, hadd]
  refine ⟨?_, hholder⟩
  unfold confirmed
  rw [liveHolderCount_of_known now h.known, hholder]
  have hset : (looked E s now).trackedCids.set r.cid tracked = s.trackedCids :=
    JsMap.set_eq_self htracked
  have hliveness : (looked E s now).liveness.record r.providerPub true now = s.liveness :=
    h.liveness
  have hcorrelation : (looked E s now).failureCorrelation.record r.providerPub true now =
      s.failureCorrelation := h.correlation
  dsimp only
  rw [hset, hliveness, hcorrelation]
  rfl

theorem untouched_of_noted
    (h : Noted E s r tracked now) : Untouched s (s.confirmHolder E tracked r now) := by
  obtain ⟨hconfirmed, hholder⟩ := confirmed_of_repeated htracked h.toRepeated
  have hcounted : ((looked E s now).liveHolderCount E tracked.confirmedProviders now).2 =
      looked E (looked E s now) now := liveHolderCount_of_known now h.known
  rw [confirmHolder_eq, hconfirmed, hholder]
  dsimp only
  rw [hcounted]
  split
  · obtain ⟨tracked', release, htracked', hdue, -⟩ | ⟨-, heq | ⟨tracked', htracked', heq⟩⟩ :=
      releasePublisherCopy_cases (E := E) (s := looked E (looked E s now) now) r.cid now
    · cases htracked.symm.trans htracked'
      exact absurd (releaseDue_looked.mp (releaseDue_looked.mp hdue)) h.notDue
    · rw [heq]
      exact ⟨rfl, rfl, rfl, rfl, fun _ => rfl, rfl⟩
    · cases htracked.symm.trans htracked'
      have hagain : ((looked E (looked E s now) now).liveHolderCount E
          tracked.confirmedProviders now).2 = looked E (looked E (looked E s now) now) now :=
        liveHolderCount_of_known now h.known
      rw [heq, hagain]
      exact ⟨rfl, rfl, rfl, rfl, fun _ => rfl, rfl⟩
  · exact ⟨rfl, rfl, rfl, rfl, fun _ => rfl, rfl⟩

theorem repeated_of_untouched
    (h : Untouched s (s.confirmHolder E tracked r now)) : Repeated s r tracked now := by
  obtain ⟨htrackedCids, hcorrelation, -, -, -, hgrows, -⟩ :=
    confirmHolder_frame (E := E) (s := s) (r := r) tracked now
  rw [h.liveness] at hgrows
  have hcounted : Grows s.liveness (s.liveHolders E tracked.confirmedProviders.keys now).2 :=
    grows_keepHolders tracked.confirmedProviders.keys now ([], s.liveness)
  have hnoted := grows_noteRegistered (s.liveHolders E tracked.confirmedProviders.keys now).2
    r.providerPub now
  have hlast : s.liveness.last = ((s.liveHolders E tracked.confirmedProviders.keys now).2
      |>.noteRegistered r.providerPub now).last.set r.providerPub ⟨true, now⟩ := hgrows.last
  have hstreak : s.liveness.failStreak =
      ((s.liveHolders E tracked.confirmedProviders.keys now).2
        |>.noteRegistered r.providerPub now).failStreak.set r.providerPub 0 := hgrows.failStreak
  have hseen (pub : Hex) (hpub : ((s.liveHolders E tracked.confirmedProviders.keys now).2
      |>.noteRegistered r.providerPub now).firstSeen.has pub = true) :
      s.liveness.firstSeen.has pub = true := hgrows.firstSeen pub hpub
  refine ⟨?_, ?_, ?_, ?_⟩
  · have hsame := htrackedCids.symm.trans h.confirmed
    have hget : some (withHolder tracked r.providerPub) = some tracked := by
      rw [← htracked, ← hsame, JsMap.get?_set_self]
    rw [← Option.some.inj hget]
    exact JsSet.has_add_self tracked.confirmedProviders r.providerPub
  · intro pub hpub p hp hcapacity
    have hknown := known_keepHolders (E := E) (s := s) tracked.confirmedProviders.keys now
      ([], s.liveness) pub hpub
    exact hseen pub (hnoted.firstSeen pub (hknown p hp hcapacity))
  · refine record_eq_self (hseen _ (has_noteRegistered _ _ _)) ?_ ?_
    · rw [hlast, JsMap.get?_set_self]
    · rw [hstreak, JsMap.get?_set_self]
  · exact hcorrelation.symm.trans h.correlation

theorem untouched_confirmHolder_iff :
    Untouched s (s.confirmHolder E tracked r now) ↔ Noted E s r tracked now := by
  refine ⟨fun h => ?_, untouched_of_noted htracked⟩
  have hrepeated := repeated_of_untouched htracked h
  refine ⟨hrepeated, fun hdue => ?_⟩
  obtain ⟨hconfirmed, hholder⟩ := confirmed_of_repeated htracked hrepeated
  have hcounted : ((looked E s now).liveHolderCount E tracked.confirmedProviders now).2 =
      looked E (looked E s now) now := liveHolderCount_of_known now hrepeated.known
  have hreleases := h.releases
  rw [confirmHolder_eq, hconfirmed, hholder] at hreleases
  dsimp only at hreleases
  rw [count_looked, if_pos hdue.live, hcounted] at hreleases
  obtain ⟨tracked', release, -, -, heq⟩ | ⟨hnot, -⟩ :=
    releasePublisherCopy_cases (E := E) (s := looked E (looked E s now) now) r.cid now
  · rw [heq] at hreleases
    have hlength := congrArg List.length hreleases
    simp [looked] at hlength
  · exact hnot tracked htracked (releaseDue_looked.mpr (releaseDue_looked.mpr hdue))

end

end Success

/-! ## The record of the provider -/

section Metrics

variable (E : CustodyEnv F) (s : CustodyManager F) (r : ReceiptMessage F) (now : Int)

/-- The provider's record with the stored bytes that it has signed. -/
def reported (p : StorageProviderState F) : StorageProviderState F :=
  match r.actualStoredBytes with
  | some bytes =>
    if E.verifyMsg r.signature r.payload r.providerPub then
      (TelemetryWrite.storedBytes bytes).write p
    else p
  | none => p

/-- ... and with the figures of the window. -/
def scored (p : StorageProviderState F) : StorageProviderState F :=
  if r.requesterPub = r.providerPub then p
  else
    (TelemetryWrite.spotCheck (passRate (s.window E r now))
      (meanLatency (s.window E r now))).write p

variable {E s r now}

omit [JsNumber F] in
theorem providers_writeTelemetry (pub : Hex) (w : TelemetryWrite F) :
    (s.writeTelemetry pub w).ledger.providerLedger.providers =
      match s.provider? pub with
      | some p => s.ledger.providerLedger.providers.set pub (w.write p)
      | none => s.ledger.providerLedger.providers := by
  cases hp : s.ledger.providerLedger.providers.get? pub with
  | none =>
    simp only [writeTelemetry, ProviderLedger.writeTelemetry, StorageManager.provider?, hp]
  | some p =>
    simp only [writeTelemetry, ProviderLedger.writeTelemetry, StorageManager.provider?, hp]

omit [JsNumber F] in
theorem providers_unchanged : s.ledger.providerLedger.providers =
    match s.provider? r.providerPub with
    | some p => s.ledger.providerLedger.providers.set r.providerPub p
    | none => s.ledger.providerLedger.providers := by
  cases hp : s.provider? r.providerPub with
  | none => rfl
  | some p => exact (JsMap.set_eq_self hp).symm

theorem providers_noteStoredBytes :
    (s.noteStoredBytes E r).ledger.providerLedger.providers =
      match s.provider? r.providerPub with
      | some p => s.ledger.providerLedger.providers.set r.providerPub (reported E r p)
      | none => s.ledger.providerLedger.providers := by
  cases hbytes : r.actualStoredBytes with
  | none =>
    simp only [noteStoredBytes, reported, hbytes]
    exact providers_unchanged
  | some bytes =>
    cases hverify : E.verifyMsg r.signature r.payload r.providerPub with
    | false =>
      simp only [noteStoredBytes, reported, hbytes, hverify, Bool.false_eq_true, if_false]
      exact providers_unchanged
    | true =>
      simp only [noteStoredBytes, reported, hbytes, hverify, if_true]
      exact providers_writeTelemetry r.providerPub _

theorem providers_scoreProvider :
    (s.scoreProvider E r now).ledger.providerLedger.providers =
      match s.provider? r.providerPub with
      | some p => s.ledger.providerLedger.providers.set r.providerPub (scored E s r now p)
      | none => s.ledger.providerLedger.providers := by
  by_cases hself : r.requesterPub = r.providerPub
  · simp only [scoreProvider, scored, if_pos hself]
    exact providers_unchanged
  · simp only [scoreProvider, scored, if_neg hself]
    exact providers_writeTelemetry r.providerPub _

/-- Two states that differ in the ledger and in the window of receipts at most. -/
structure SameCustody (s s' : CustodyManager F) : Prop where
  confirmed : s'.trackedCids = s.trackedCids
  liveness : s'.liveness = s.liveness
  correlation : s'.failureCorrelation = s.failureCorrelation
  store : s'.store = s.store
  releases : s'.releases = s.releases

theorem sameCustody_noteStoredBytes :
    SameCustody s (s.noteStoredBytes E r) ∧ (s.noteStoredBytes E r).receipts = s.receipts := by
  unfold noteStoredBytes
  split
  · exact ⟨⟨rfl, rfl, rfl, rfl, rfl⟩, rfl⟩
  · split <;> exact ⟨⟨rfl, rfl, rfl, rfl, rfl⟩, rfl⟩

theorem sameCustody_scoreProvider : SameCustody s (s.scoreProvider E r now) := by
  unfold scoreProvider
  split <;> exact ⟨rfl, rfl, rfl, rfl, rfl⟩

theorem sameCustody_handleReceipt (s : CustodyManager F) (r : ReceiptMessage F) (now : Int) :
    SameCustody (s.noteSuccess E r now) (s.handleReceipt E r now) :=
  have hstored := (sameCustody_noteStoredBytes (E := E) (s := s.noteSuccess E r now) (r := r)).1
  have hscored : SameCustody _ (s.handleReceipt E r now) := sameCustody_scoreProvider
  ⟨hscored.confirmed.trans hstored.confirmed, hscored.liveness.trans hstored.liveness,
    hscored.correlation.trans hstored.correlation, hscored.store.trans hstored.store,
    hscored.releases.trans hstored.releases⟩

theorem noteSuccess_frame (now : Int) : let s' := s.noteSuccess E r now
    s'.ledger = s.ledger ∧ s'.receipts = s.receipts := by
  unfold noteSuccess
  split
  · exact ⟨rfl, rfl⟩
  · cases htracked : s.trackedCids.get? r.cid with
    | none => exact ⟨rfl, rfl⟩
    | some tracked =>
      obtain ⟨-, -, hledger, -, hreceipts, -, -⟩ :=
        confirmHolder_frame (E := E) (s := s) (r := r) tracked now
      exact ⟨hledger, hreceipts⟩

theorem providers_handleReceipt :
    (s.handleReceipt E r now).ledger.providerLedger.providers =
      match s.provider? r.providerPub with
      | some p =>
        s.ledger.providerLedger.providers.set r.providerPub (scored E s r now (reported E r p))
      | none => s.ledger.providerLedger.providers := by
  obtain ⟨hledger, hreceipts⟩ := noteSuccess_frame (E := E) (s := s) (r := r) now
  have hstored := providers_noteStoredBytes (E := E) (s := s.noteSuccess E r now) (r := r)
  have hwindow : scored E ((s.noteSuccess E r now).noteStoredBytes E r) r now =
      scored E s r now := by
    unfold scored window
    rw [(sameCustody_noteStoredBytes (E := E) (s := s.noteSuccess E r now) (r := r)).2, hreceipts]
  have hprovider : (s.noteSuccess E r now).provider? r.providerPub = s.provider? r.providerPub := by
    unfold StorageManager.provider?
    rw [hledger]
  rw [hprovider, hledger] at hstored
  unfold handleReceipt
  rw [providers_scoreProvider, hwindow]
  unfold StorageManager.provider? at hstored ⊢
  rw [hstored]
  cases hp : s.ledger.providerLedger.providers.get? r.providerPub with
  | none => simp only [hp]
  | some p => simp only [JsMap.get?_set_self, JsMap.set_set]

theorem reported_eq_iff (p : StorageProviderState F) :
    reported E r p = p ↔ ∀ bytes, r.actualStoredBytes = some bytes →
      E.verifyMsg r.signature r.payload r.providerPub = true → p.lastActualStoredBytes = bytes := by
  cases hbytes : r.actualStoredBytes with
  | none => simp [reported, hbytes]
  | some bytes =>
    cases hverify : E.verifyMsg r.signature r.payload r.providerPub with
    | false => simp [reported, hbytes, hverify]
    | true =>
      simp only [reported, hbytes, hverify, if_true, Option.some.injEq, forall_eq',
        forall_true_left]
      constructor
      · intro h
        exact (congrArg StorageProviderState.lastActualStoredBytes h).symm
      · intro h
        simp only [TelemetryWrite.write, ← h]

theorem scored_eq_iff (p : StorageProviderState F) :
    scored E s r now p = p ↔ (r.requesterPub ≠ r.providerPub →
      p.spotCheckPassRate = passRate (s.window E r now) ∧
      ∀ mean, meanLatency (s.window E r now) = some mean → p.avgLatencyMs = mean) := by
  by_cases hself : r.requesterPub = r.providerPub
  · simp [scored, hself]
  · have hscored : scored E s r now p = (TelemetryWrite.spotCheck
        (passRate (s.window E r now)) (meanLatency (s.window E r now))).write p := if_neg hself
    rw [hscored]
    constructor
    · intro h _
      refine ⟨(congrArg StorageProviderState.spotCheckPassRate h).symm, fun mean hmean => ?_⟩
      have havg := (congrArg StorageProviderState.avgLatencyMs h).symm
      rw [hmean] at havg
      exact havg
    · intro h
      obtain ⟨hrate, hlatency⟩ := h hself
      have hmean : (meanLatency (s.window E r now)).getD p.avgLatencyMs = p.avgLatencyMs := by
        cases hmean : meanLatency (s.window E r now) with
        | none => rfl
        | some mean => exact (hlatency mean hmean).symm
      simp only [TelemetryWrite.write, hmean, ← hrate]

theorem reported_of_scored {p : StorageProviderState F}
    (h : scored E s r now (reported E r p) = p) : reported E r p = p := by
  have hkeeps (q : StorageProviderState F) :
      (scored E s r now q).lastActualStoredBytes = q.lastActualStoredBytes := by
    unfold scored
    split <;> rfl
  have hbytes := hkeeps (reported E r p)
  rw [h] at hbytes
  refine (reported_eq_iff p).mpr fun bytes hsome hverify => ?_
  rw [hbytes]
  simp only [reported, hsome, hverify, if_true]
  rfl

end Metrics

/-! ## Unsigned receipts -/

section Main

variable {E : CustodyEnv F} {s : CustodyManager F} {r : ReceiptMessage F} {now : Int}

theorem metrics_iff : (s.handleReceipt E r now).ledger.providerLedger.providers =
      s.ledger.providerLedger.providers ↔
    ∀ p, s.provider? r.providerPub = some p →
      (∀ bytes, r.actualStoredBytes = some bytes →
        E.verifyMsg r.signature r.payload r.providerPub = true → p.lastActualStoredBytes = bytes) ∧
      (r.requesterPub ≠ r.providerPub →
        p.spotCheckPassRate = passRate (s.window E r now) ∧
        ∀ mean, meanLatency (s.window E r now) = some mean → p.avgLatencyMs = mean) := by
  rw [providers_handleReceipt]
  cases hp : s.provider? r.providerPub with
  | none => simp
  | some p =>
    simp only [Option.some.injEq, forall_eq']
    rw [← reported_eq_iff, ← scored_eq_iff]
    constructor
    · intro h
      have hget : some (scored E s r now (reported E r p)) = some p :=
        (JsMap.get?_set_self s.ledger.providerLedger.providers r.providerPub _).symm.trans
          ((congrArg (fun m => m.get? r.providerPub) h).trans hp)
      have hreported := reported_of_scored (Option.some.inj hget)
      refine ⟨hreported, ?_⟩
      rw [hreported] at hget
      exact Option.some.inj hget
    · rintro ⟨hreported, hscored⟩
      rw [hreported, hscored]
      exact JsMap.set_eq_self hp

theorem getBlock_addPeerFallback (store : SmokeStore) (addr : String) (cid : Cid) :
    (store.addPeerFallback addr).getBlock cid = store.getBlock cid := by
  by_cases h : addr = ""
  · simp only [SmokeStore.addPeerFallback, h, if_true]
  · simp only [SmokeStore.addPeerFallback, if_neg h, SmokeStore.getBlock, SmokeStore.readFromOPFS]

theorem untouched_noteSuccess_iff : Untouched s (s.noteSuccess E r now) ↔
    (r.success = true → ∀ tracked, s.trackedCids.get? r.cid = some tracked →
      Noted E s r tracked now) := by
  cases hsuccess : r.success with
  | false =>
    have hsame : s.noteSuccess E r now = s := by simp only [noteSuccess, hsuccess, if_true]
    rw [hsame]
    exact iff_of_true ⟨rfl, rfl, rfl, rfl, fun _ => rfl, rfl⟩ (fun h => by cases h)
  | true =>
    cases htracked : s.trackedCids.get? r.cid with
    | none =>
      refine iff_of_true ?_ (fun _ tracked h => by cases h)
      simp only [noteSuccess, hsuccess, htracked, Bool.true_eq_false, if_false]
      exact ⟨rfl, rfl, rfl, rfl, getBlock_addPeerFallback s.store _, rfl⟩
    | some tracked =>
      have hafter : s.noteSuccess E r now = { s.confirmHolder E tracked r now with
          store := (s.confirmHolder E tracked r now).store.addPeerFallback
            (r.providerSmokeAddr.getD "") } := by
        simp only [noteSuccess, hsuccess, htracked, Bool.true_eq_false, if_false]
      have hstore : (s.confirmHolder E tracked r now).store = s.store := by
        obtain ⟨-, -, -, hstore, -⟩ :=
          confirmHolder_frame (E := E) (s := s) (r := r) tracked now
        exact hstore
      simp only [Option.some.injEq, forall_eq', forall_true_left]
      rw [hafter, ← untouched_confirmHolder_iff htracked]
      constructor
      · intro h
        refine ⟨h.confirmed, h.liveness, h.correlation, h.metrics, fun cid => ?_, h.releases⟩
        rw [hstore]
      · intro h
        refine ⟨h.confirmed, h.liveness, h.correlation, h.metrics, fun cid => ?_, h.releases⟩
        exact (getBlock_addPeerFallback _ _ cid).trans (h.blocks cid)

/-- An unsigned receipt leaves everything as it was exactly when it says nothing new. -/
theorem untouched_iff (E : CustodyEnv F) (s : CustodyManager F) (r : ReceiptMessage F) (now : Int)
    (hunsigned : r.Unsigned E.toStorageEnv) :
    Untouched s (s.handleReceipt E r now) ↔ NothingNew E s r now := by
  obtain ⟨hconfirmed, hliveness, hcorrelation, hstore, hreleases⟩ :=
    sameCustody_handleReceipt (E := E) s r now
  have hledger := (noteSuccess_frame (E := E) (s := s) (r := r) now).1
  have hsplit : Untouched s (s.handleReceipt E r now) ↔ Untouched s (s.noteSuccess E r now) ∧
      (s.handleReceipt E r now).ledger.providerLedger.providers =
        s.ledger.providerLedger.providers := by
    constructor
    · intro h
      refine ⟨⟨hconfirmed.symm.trans h.confirmed, hliveness.symm.trans h.liveness,
        hcorrelation.symm.trans h.correlation, by rw [hledger], fun cid => ?_,
        hreleases.symm.trans h.releases⟩, h.metrics⟩
      rw [← hstore]
      exact h.blocks cid
    · rintro ⟨h, hmetrics⟩
      refine ⟨hconfirmed.trans h.confirmed, hliveness.trans h.liveness,
        hcorrelation.trans h.correlation, hmetrics, fun cid => ?_, hreleases.trans h.releases⟩
      have hblocks := h.blocks cid
      rw [← hstore] at hblocks
      exact hblocks
  rw [hsplit, untouched_noteSuccess_iff, metrics_iff]
  constructor
  · rintro ⟨hsuccess, hrecord⟩
    refine ⟨hsuccess, fun hthird p hp => ?_⟩
    obtain ⟨hbytes, hfigures⟩ := hrecord p hp
    exact ⟨hbytes, (hfigures hthird).1, (hfigures hthird).2⟩
  · rintro ⟨hsuccess, hrecord⟩
    refine ⟨hsuccess, fun p hp => ⟨fun bytes hsome hverify => ?_, fun hthird => ?_⟩⟩
    · by_cases hself : r.requesterPub = r.providerPub
      · -- its own receipt, which the provider has not signed
        unfold ReceiptMessage.Unsigned ReceiptMessage.signer at hunsigned
        rw [if_pos hself] at hunsigned
        cases hverify.symm.trans hunsigned
      · exact (hrecord hself p hp).storedBytes bytes hsome hverify
    · exact ⟨(hrecord hthird p hp).passRate, (hrecord hthird p hp).latency⟩

end Main

/-! ## Two forged receipts -/

section Samples

open CustodyManager.Sample

/-- A forged receipt for a CID that the node does not track. -/
theorem untouched_elsewhere : Untouched (publisher [holder "bb" "laptop"])
    ((publisher [holder "bb" "laptop"]).handleReceipt custodyEnv
      { claimFor "bb" with cid := "elsewhere" } 10) := by
  refine (untouched_iff custodyEnv _ { claimFor "bb" with cid := "elsewhere" } 10 (by rfl)).mpr
    ⟨fun _ tracked htracked => ?_, fun hthird => absurd rfl hthird⟩
  have hnone : ((publisher [holder "bb" "laptop"]).trackedCids.get? "elsewhere").isNone = true := by
    decide +kernel
  rw [htracked] at hnone
  cases hnone

/-- Two forged receipts, and the publisher is about to give up its copy. -/
theorem forged_receipts_release : ¬ ∀ (E : CustodyEnv Rat) (s : CustodyManager Rat)
    (r : ReceiptMessage Rat) (now : Int), r.Unsigned E.toStorageEnv →
    Untouched s (s.handleReceipt E r now) := by
  intro h
  have hreleases := (h custodyEnv
    ((publisher [holder "bb" "laptop", holder "cc" "tower"]).handleReceipt custodyEnv
      (claimFor "bb") 10) (claimFor "cc") 11 (by rfl)).releases
  have hbefore : ((publisher [holder "bb" "laptop", holder "cc" "tower"]).handleReceipt custodyEnv
      (claimFor "bb") 10).releases = [] := by decide +kernel
  have hafter : (((publisher [holder "bb" "laptop", holder "cc" "tower"]).handleReceipt custodyEnv
      (claimFor "bb") 10).handleReceipt custodyEnv (claimFor "cc") 11).releases ≠ [] := by
    decide +kernel
  exact hafter (hreleases.trans hbefore)

end Samples

end CustodyManager

end NeuronWeb
