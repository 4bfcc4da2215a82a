/-
  Storage/PublisherCopy: what the publisher knows when it deletes its copy.

  A call of `releasePublisherCopy` counts live holders by failure domain, asks each of them for
  the bytes, and counts the answers: one for each key, whatever the bytes are, and whatever has
  become of the holder in the meantime.  `released_proven` says that sound answers are all that
  it takes, `junk_releases` is a copy that is deleted against two empty promises.
-/
import NeuronWeb.Storage.UnsignedReceipts

set_option autoImplicit false

namespace NeuronWeb.CustodyManager

variable {F : Type} [JsNumber F] (E : CustodyEnv F)

/-! ## Proven redundancy -/

/-- A confirmed holder of the CID whose lease is live. -/
structure Standing (s : CustodyManager F) (cid : Cid) (now : Int) (pub : Hex) : Prop where
  confirmed : ∃ tracked, s.trackedCids.get? cid = some tracked ∧
    tracked.confirmedProviders.has pub = true
  live : (s.ledger.providerLedger.isLive E.maxOfflineMs s.liveness pub now).1 = true

/-- The holder has returned bytes that hash to the CID. -/
def Served (cid : Cid) (answer : Hex → Option Bytes) (pub : Hex) : Prop :=
  ∃ bytes, answer pub = some bytes ∧ computeCID E.primitives bytes = cid

/-- Enough standing holders in pairwise distinct failure domains have served the CID. -/
def Redundant (s : CustodyManager F) (cid : Cid) (answer : Hex → Option Bytes) (now : Int) : Prop :=
  ∃ holders : List Hex, MIN_REPLICAS ≤ holders.length ∧ (holders.map (s.domainOf E now)).Nodup ∧
    ∀ pub ∈ holders, Standing E s cid now pub ∧ Served E cid answer pub

/-- A call that deletes local blocks does so against proven redundancy. -/
def DeletesProven (s : CustodyManager F) : Input F → CustodyManager F → Prop
  | .receipt _ _, s' => s'.store.blocks = s.store.blocks ∧ s'.store.opfsBlocks = s.store.opfsBlocks
  | .answers n answer now, s' => s'.store ≠ s.store → ∃ release,
      s.releases[n]? = some (some release) ∧ Redundant E s release.cid answer now

/-- The answers that a call counts: each is the content of the CID, no two are from one failure
domain, and who sent it is still a confirmed holder with a live lease. -/
structure SoundAnswers (s : CustodyManager F) (release : PendingRelease)
    (answer : Hex → Option Bytes) (now : Int) : Prop where
  genuine : ∀ pub ∈ release.proven answer, Served E release.cid answer pub
  apart : ((release.proven answer).map (s.domainOf E now)).Nodup
  standing : ∀ pub ∈ release.proven answer, Standing E s release.cid now pub

/-- What is asked of the peers. -/
def Sound (s : CustodyManager F) : Input F → Prop
  | .receipt _ _ => True
  | .answers n answer now => ∀ release, s.releases[n]? = some (some release) →
      SoundAnswers E s release answer now

section Steps

variable {E : CustodyEnv F} {s : CustodyManager F}

theorem store_handleReceipt (r : ReceiptMessage F) (now : Int) :
    (s.handleReceipt E r now).store.blocks = s.store.blocks ∧
      (s.handleReceipt E r now).store.opfsBlocks = s.store.opfsBlocks := by
  have hstore : (s.handleReceipt E r now).store = (s.noteSuccess E r now).store :=
    (sameCustody_handleReceipt s r now).store
  have hpeers (store : SmokeStore) (addr : String) :
      (store.addPeerFallback addr).blocks = store.blocks ∧
        (store.addPeerFallback addr).opfsBlocks = store.opfsBlocks := by
    by_cases h : addr = ""
    · simp only [SmokeStore.addPeerFallback, h, if_true, and_self]
    · simp only [SmokeStore.addPeerFallback, if_neg h, and_self]
  rw [hstore]
  unfold noteSuccess
  split
  · exact ⟨rfl, rfl⟩
  · cases htracked : s.trackedCids.get? r.cid with
    | none => exact hpeers s.store _
    | some tracked =>
      obtain ⟨-, -, -, hconfirm, -⟩ :=
        confirmHolder_frame (E := E) (s := s) (r := r) tracked now
      dsimp only
      rw [hconfirm]
      exact hpeers s.store _

omit [JsNumber F] in
theorem finishRelease_cases (n : Nat) (answer : Hex → Option Bytes) :
    (s.finishRelease n answer).store = s.store ∨
      ∃ release, s.releases[n]? = some (some release) ∧
        MIN_REPLICAS ≤ (release.proven answer).length := by
  unfold finishRelease
  split
  · next release hrelease =>
      dsimp only
      split
      · exact .inl rfl
      · next hproven => exact .inr ⟨release, hrelease, Nat.le_of_not_lt hproven⟩
  · exact .inl rfl

omit [JsNumber F] in
theorem store_finishRelease {n : Nat} {answer : Hex → Option Bytes} {release : PendingRelease}
    (hrelease : s.releases[n]? = some (some release))
    (hproven : MIN_REPLICAS ≤ (release.proven answer).length) (hstarted : s.storeStarted = true) :
    (s.finishRelease n answer).store =
      (release.cid :: release.additionalCids).foldl SmokeStore.deleteBlock s.store := by
  have henough := Nat.not_lt.mpr hproven
  simp only [finishRelease, hrelease, if_neg henough, hstarted, if_true]

theorem redundant_of_sound {release : PendingRelease} {answer : Hex → Option Bytes} {now : Int}
    (h : SoundAnswers E s release answer now)
    (hproven : MIN_REPLICAS ≤ (release.proven answer).length) :
    Redundant E s release.cid answer now :=
  ⟨release.proven answer, hproven, h.apart,
    fun pub hpub => ⟨h.standing pub hpub, h.genuine pub hpub⟩⟩

theorem deletesProven_step (input : Input F) (h : Sound E s input) :
    DeletesProven E s input (s.step E input) := by
  cases input with
  | receipt r now => exact store_handleReceipt r now
  | answers n answer now =>
    intro hdeletes
    rcases finishRelease_cases n answer with hsame | ⟨release, hrelease, hproven⟩
    · exact absurd hsame hdeletes
    · exact ⟨release, hrelease, redundant_of_sound (h release hrelease) hproven⟩

/-- The node counts its holders a last time before it asks them. -/
def recounted (E : CustodyEnv F) (s : CustodyManager F) (tracked : TrackedCid)
    (r : ReceiptMessage F) (now : Int) : CustodyManager F :=
  ((confirmed E s tracked r now).liveHolderCount E
    (withHolder tracked r.providerPub).confirmedProviders now).2

theorem releases_handleReceipt {r : ReceiptMessage F} {tracked : TrackedCid} (now : Int)
    (hsuccess : r.success = true) (htracked : s.trackedCids.get? r.cid = some tracked)
    (hcount : MIN_REPLICAS ≤ ((confirmed E s tracked r now).liveHolderCount E
      (withHolder tracked r.providerPub).confirmedProviders now).1)
    (hdue : ReleaseDue E (recounted E s tracked r now) r.cid (withHolder tracked r.providerPub)
      now) :
    (s.handleReceipt E r now).releases = s.releases ++
      [some ⟨r.cid, tracked.additionalCids,
        ((recounted E s tracked r now).liveHolderCount E
          (withHolder tracked r.providerPub).confirmedProviders now).2.asked E
            (withHolder tracked r.providerPub).confirmedProviders now⟩] := by
  have hnoted : (s.noteSuccess E r now).releases =
      ((recounted E s tracked r now).releasePublisherCopy E r.cid now).releases := by
    simp only [noteSuccess, hsuccess, htracked, Bool.true_eq_false, if_false, confirmHolder_eq,
      if_pos hcount]
    rfl
  have hget : (recounted E s tracked r now).trackedCids.get? r.cid =
      some (withHolder tracked r.providerPub) := JsMap.get?_set_self _ _ _
  have henough := Nat.not_lt.mpr hdue.live
  have hstarted : ((recounted E s tracked r now).releasePublisherCopy E r.cid now).releases =
      (recounted E s tracked r now).releases ++
        [some ⟨r.cid, (withHolder tracked r.providerPub).additionalCids,
          ((recounted E s tracked r now).liveHolderCount E
            (withHolder tracked r.providerPub).confirmedProviders now).2.asked E
              (withHolder tracked r.providerPub).confirmedProviders now⟩] := by
    simp only [releasePublisherCopy, hget, hdue.own, hdue.kept, Bool.true_eq_false,
      Bool.false_eq_true, if_false, if_neg henough]
    rfl
  exact (sameCustody_handleReceipt s r now).releases.trans (hnoted.trans hstarted)

theorem ledger_recounted (tracked : TrackedCid) (r : ReceiptMessage F)
    (confirmed : JsSet Hex) (now : Int) :
    ((recounted E s tracked r now).liveHolderCount E confirmed now).2.ledger = s.ledger := rfl

theorem trackedCids_handleReceipt {r : ReceiptMessage F} {tracked : TrackedCid} (now : Int)
    (hsuccess : r.success = true) (htracked : s.trackedCids.get? r.cid = some tracked) :
    (s.handleReceipt E r now).trackedCids =
      s.trackedCids.set r.cid (withHolder tracked r.providerPub) := by
  have hnoted : (s.noteSuccess E r now).trackedCids =
      (s.confirmHolder E tracked r now).trackedCids := by
    simp only [noteSuccess, hsuccess, htracked, Bool.true_eq_false, if_false]
  exact (sameCustody_handleReceipt s r now).confirmed.trans
    (hnoted.trans (confirmHolder_frame (E := E) tracked now).1)

theorem ledger_handleReceipt {r : ReceiptMessage F} {now : Int}
    (hself : r.requesterPub = r.providerPub) (hbytes : r.actualStoredBytes = none) :
    (s.handleReceipt E r now).ledger = s.ledger := by
  unfold handleReceipt noteStoredBytes scoreProvider
  rw [hbytes, if_pos hself]
  exact (noteSuccess_frame now).1

end Steps

/-- Along every run of receipts and sound answers the publisher's copy is deleted against proven
redundancy only. -/
theorem released_proven (E : CustodyEnv F) (s : CustodyManager F) (inputs : List (Input F))
    (h : Run.StepsMeet (step E) (Sound E) s inputs) :
    Run.EveryStep (step E) (DeletesProven E) s inputs :=
  Run.everyStep_of_invariant (I := fun _ => True) (fun _ _ _ _ => trivial)
    (fun _ input _ hsound => deletesProven_step input hsound) trivial h

/-! ## Two holders -/

section Samples

open CustodyManager.Sample

/-- Two providers on two devices are said to hold the upload. -/
def twoClaims : List (Input Rat) := [.receipt (claimFor "bb") 10, .receipt (claimFor "cc") 11]

def twoHolders : CustodyManager Rat := publisher [holder "bb" "laptop", holder "cc" "tower"]

/-- They serve it. -/
def honest (_ : Hex) : Option Bytes :=
  StorageManager.Sample.hosting.store.getBlock StorageManager.Sample.upload.2.root

/-- Each of them answers with one byte. -/
def junk (_ : Hex) : Option Bytes := some [0]

theorem allProviders_twoHolders : twoHolders.ledger.providerLedger.allProviders =
    [holder "bb" "laptop", holder "cc" "tower"] := by
  have hsorted : twoHolders.ledger.providerLedger.allProviders =
      [holder "bb" "laptop", holder "cc" "tower"].mergeSort
        fun a b => !JsNumber.lt (JsNumber.ofInt 0) (JsNumber.sub b.score a.score) := rfl
  rw [hsorted]
  exact List.mergeSort_of_pairwise (by decide +kernel)

/-- The publisher after the first claim. -/
def claimed : CustodyManager Rat := twoHolders.handleReceipt custodyEnv (claimFor "bb") 10

def claimedUpload : TrackedCid :=
  ⟨"aa", JsSet.add .empty "bb", StorageManager.Sample.upload.2.parts⟩

/-- A call that asks the two. -/
def bothAsked : PendingRelease :=
  ⟨StorageManager.Sample.upload.2.root, StorageManager.Sample.upload.2.parts, ["bb", "cc"]⟩

/-- The publisher while they are asked. -/
def waiting : CustodyManager Rat := claimed.handleReceipt custodyEnv (claimFor "cc") 11

theorem waiting_releases : waiting.releases = [some bothAsked] := by
  have htracked : claimed.trackedCids.get? StorageManager.Sample.upload.2.root =
      some claimedUpload := by
    have hunclaimed : twoHolders.trackedCids.get? (claimFor "bb").cid =
        some ⟨"aa", JsMap.empty, StorageManager.Sample.upload.2.parts⟩ :=
      JsMap.get?_set_self _ _ _
    exact (congrArg (fun m => m.get? StorageManager.Sample.upload.2.root)
      (trackedCids_handleReceipt (E := custodyEnv) 10 rfl hunclaimed)).trans
        (JsMap.get?_set_self _ _ _)
  have hledger : claimed.ledger = twoHolders.ledger := ledger_handleReceipt rfl rfl
  have hstarted := releases_handleReceipt (E := custodyEnv) (s := claimed) (r := claimFor "cc")
    11 rfl htracked (by decide +kernel)
    ⟨by decide +kernel, by decide +kernel, by decide +kernel⟩
  have hasked : ((recounted custodyEnv claimed claimedUpload (claimFor "cc") 11).liveHolderCount
      custodyEnv (withHolder claimedUpload "cc").confirmedProviders 11).2.asked custodyEnv
        (withHolder claimedUpload "cc").confirmedProviders 11 = ["bb", "cc"] := by
    unfold asked
    rw [ledger_recounted, hledger, allProviders_twoHolders]
    decide +kernel
  have hbefore : claimed.releases = [] := by decide +kernel
  rw [waiting, hstarted, hbefore]
  exact congrArg (fun asked => [some (PendingRelease.mk StorageManager.Sample.upload.2.root
    StorageManager.Sample.upload.2.parts asked)]) hasked

theorem waiting_asks : waiting.releases[0]? = some (some bothAsked) := by
  rw [waiting_releases]
  rfl

theorem final_twoClaims : Run.final (step custodyEnv) twoHolders twoClaims = waiting := by
  simp only [twoClaims, Run.final_cons, Run.final_nil, step, waiting, claimed]

/-- Two keys have sent a byte each, and the publisher deletes its copy. -/
theorem junk_releases : ¬ ∀ (E : CustodyEnv Rat) (s : CustodyManager Rat)
    (inputs : List (Input Rat)), Run.EveryStep (step E) (DeletesProven E) s inputs := by
  intro h
  have hlast := (h custodyEnv twoHolders (twoClaims ++ [.answers 0 junk 12])).last
  rw [final_twoClaims] at hlast
  simp only [DeletesProven, step] at hlast
  have hfinish : (waiting.finishRelease 0 junk).store =
      (bothAsked.cid :: bothAsked.additionalCids).foldl SmokeStore.deleteBlock waiting.store :=
    store_finishRelease waiting_asks (by decide +kernel) (by decide +kernel)
  have hdeletes : (waiting.finishRelease 0 junk).store ≠ waiting.store := by
    intro hsame
    have hheld : (waiting.store.getBlock bothAsked.cid).isSome = true := by decide +kernel
    have hgone : (((bothAsked.cid :: bothAsked.additionalCids).foldl SmokeStore.deleteBlock
        waiting.store).getBlock bothAsked.cid).isSome = false := by
      decide +kernel
    rw [← hfinish, hsame, hheld] at hgone
    cases hgone
  obtain ⟨release, hsome, holders, hlength, -, hholders⟩ := hlast hdeletes
  cases waiting_asks.symm.trans hsome
  cases holders with
  | nil => cases hlength
  | cons pub rest =>
    obtain ⟨-, bytes, hbytes, hcid⟩ := hholders pub List.mem_cons_self
    cases hbytes
    have hother : computeCID custodyEnv.primitives [0] ≠ bothAsked.cid := by decide +kernel
    exact hother hcid

/-- Two devices serve the upload, and the publisher deletes its copy. -/
theorem released_honest : Run.EveryStep (step custodyEnv) (DeletesProven custodyEnv) twoHolders
    (twoClaims ++ [.answers 0 honest 12]) := by
  have hstanding : bothAsked.asked.all (fun pub =>
      (waiting.trackedCids.get? bothAsked.cid).any (fun tracked =>
        tracked.confirmedProviders.has pub) &&
      (waiting.ledger.providerLedger.isLive custodyEnv.maxOfflineMs waiting.liveness pub 12).1) =
      true := by
    decide +kernel
  have hsound : SoundAnswers custodyEnv waiting bothAsked honest 12 := by
    refine ⟨fun pub hpub => ?_, by decide +kernel, fun pub hpub => ?_⟩
    · have hcontent : (honest pub).any (fun bytes =>
          computeCID custodyEnv.primitives bytes = bothAsked.cid) = true := by
        unfold honest
        decide +kernel
      obtain ⟨bytes, hbytes, hcid⟩ := (Option.any_eq_true _ _).mp hcontent
      exact ⟨bytes, hbytes, of_decide_eq_true hcid⟩
    · have hasked := List.all_eq_true.mp hstanding pub (List.mem_filter.mp hpub).1
      rw [Bool.and_eq_true, Option.any_eq_true] at hasked
      exact ⟨hasked.1, hasked.2⟩
  refine released_proven custodyEnv twoHolders (twoClaims ++ [.answers 0 honest 12]) ?_
  refine ⟨trivial, trivial, fun release hrelease => ?_, trivial⟩
  cases waiting_asks.symm.trans hrelease
  exact hsound

end Samples

end NeuronWeb.CustodyManager
