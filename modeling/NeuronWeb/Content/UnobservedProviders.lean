/-
  Content/UnobservedProviders: how long a provider that nobody has read from counts as live.

  The joining grace starts at the date on the record, not at the moment the record was learned.
  Re-registering starts no new grace, but a first date in the future postpones the end of the
  only one. Every run whose records are dated no later than the provider became known lets it
  expire, and no other run does (`unobserved_expires_iff`).
-/
import NeuronWeb.Content.CustodyLiveness
import NeuronWeb.Foundation.Run
import NeuronWeb.Sample
import Mathlib.Data.List.Induction

set_option autoImplicit false

namespace NeuronWeb

variable {F : Type} [JsNumber F]

/-- What reaches the provider ledger and its tracker, each at a local time. -/
inductive LedgerCall (F : Type) where
  | apply (block : BlockContent F) (now : Int)
  | setDiscovered (records : List (StorageProviderState F)) (now : Int)
  | isLive (pub : Hex) (now : Int)
  /-- A provider was seen serving, or failing to. -/
  | observe (pub : Hex) (ok : Bool) (now : Int)

/-- The clock of the node when the call is made. -/
def LedgerCall.time : LedgerCall F → Int
  | .apply _ now => now
  | .setDiscovered _ now => now
  | .isLive _ now => now
  | .observe _ _ now => now

/-- The ledger and the tracker after one call. -/
def LedgerCall.serve (P : Primitives F) (maxOfflineMs : Int) (L : ProviderLedger F)
    (T : CustodyLiveness) : LedgerCall F → ProviderLedger F × CustodyLiveness
  | .apply block _ => (L.apply P block, T)
  | .setDiscovered records _ => (L.setDiscovered records, T)
  | .isLive pub now => (L, (L.isLive maxOfflineMs T pub now).2)
  | .observe pub ok now => (L, T.record pub ok now)

/-- A ledger and its tracker, watched for one provider. -/
structure WatchedProvider (F : Type) where
  ledger : ProviderLedger F
  liveness : CustodyLiveness
  /-- When the provider first became known, by the clock of the node. -/
  firstKnown : Option Int

namespace WatchedProvider

def start : WatchedProvider F := ⟨ProviderLedger.new, CustodyLiveness.new, none⟩

variable (P : Primitives F) (maxOfflineMs : Int) (pub : Hex)

def step (s : WatchedProvider F) (call : LedgerCall F) : WatchedProvider F :=
  let next := call.serve P maxOfflineMs s.ledger s.liveness
  ⟨next.1, next.2, s.firstKnown.or ((next.1.get pub).map fun _ => call.time)⟩

/-- One window after the provider became known it is not live, whenever it is asked. -/
def Expires (s : WatchedProvider F) : Prop :=
  ∀ T, s.firstKnown = some T → ∀ now, T + maxOfflineMs ≤ now →
    (s.ledger.isLive maxOfflineMs s.liveness pub now).1 = false

/-- The date of a record that offers capacity. -/
def offeredSince (record : Option (StorageProviderState F)) : Option Int :=
  (record.filter fun p => !JsNumber.le p.capacityGB (JsNumber.ofInt 0)).map
    StorageProviderState.registeredAt

/-- The date on the record that a call brings out: a register of the provider, a deregister
that uncovers a discovered record, or a discovered record while no chain record hides it. -/
def broughtOut (s : WatchedProvider F) : LedgerCall F → Option Int
  | .apply block _ =>
    if block.accountId ≠ pub then none
    else
      match block.type with
      | .storageRegister =>
        let capacityGB :=
          (block.storage.bind StoragePayload.capacityGB).getD (JsNumber.ofInt 0)
        if JsNumber.le capacityGB (JsNumber.ofInt 0) then none
        else
          some (((s.ledger.durable.get? pub).map
            DurableRecord.firstRegisteredAt).getD block.timestamp)
      | .storageDeregister => offeredSince (s.ledger.discovered.get? pub)
      | _ => none
  | .setDiscovered records _ =>
    if s.ledger.providers.has pub then none
    else offeredSince (records.reverse.find? fun r => r.pub = pub)
  | _ => none

/-- Until a question has started the grace, no record of the provider is brought out that is
dated after the provider became known. -/
def DatedInTime (s : WatchedProvider F) (call : LedgerCall F) : Prop :=
  s.liveness.firstSeen.get? pub = none →
    ∀ since, s.broughtOut pub call = some since → since ≤ s.firstKnown.getD call.time

instance (s : WatchedProvider F) (call : LedgerCall F) : Decidable (s.DatedInTime pub call) :=
  inferInstanceAs (Decidable (_ → ∀ since ∈ s.broughtOut pub call, _))

end WatchedProvider

/-! ## The tracker of a provider nobody has read from -/

namespace CustodyLiveness

/-- Nothing was ever recorded about the provider. -/
structure Unobserved (T : CustodyLiveness) (pub : Hex) : Prop where
  last : T.last.get? pub = none
  failStreak : T.failStreak.get? pub = none

variable {T : CustodyLiveness} {pub : Hex}

theorem Unobserved.isLive (h : T.Unobserved pub) (now maxSilenceMs : Int) :
    T.isLive pub now maxSilenceMs =
      (T.firstSeen.get? pub).any fun since => now - since < maxSilenceMs := by
  have hstreak : ¬FAILURES_BEFORE_EVICTION ≤ T.consecutiveFailures pub := by
    rw [CustodyLiveness.consecutiveFailures, h.failStreak]
    decide
  rw [CustodyLiveness.isLive, if_neg hstreak, h.last]
  cases T.firstSeen.get? pub with
  | none => rfl
  | some since => rfl

theorem firstSeen_noteRegistered (T : CustodyLiveness) (provider pub : Hex) (since : Int) :
    (T.noteRegistered provider since).firstSeen.get? pub =
      if provider = pub then some ((T.firstSeen.get? pub).getD since)
      else T.firstSeen.get? pub := by
  unfold noteRegistered
  cases hhas : T.firstSeen.has provider with
  | true =>
    rw [if_pos rfl]
    split
    case isTrue heq =>
      obtain ⟨first, hfirst⟩ := (JsMap.has_iff _ _).mp hhas
      rw [← heq, hfirst, Option.getD_some]
    case isFalse => rfl
  | false =>
    rw [if_neg Bool.false_ne_true, JsMap.get?_set]
    split
    case isTrue heq =>
      rw [← heq, (JsMap.has_eq_false_iff _ _).mp hhas, Option.getD_none]
    case isFalse => rfl

theorem Unobserved.noteRegistered (h : T.Unobserved pub) (provider : Hex) (since : Int) :
    (T.noteRegistered provider since).Unobserved pub := by
  unfold CustodyLiveness.noteRegistered
  split
  · exact h
  · exact ⟨h.last, h.failStreak⟩

theorem Unobserved.record (h : T.Unobserved pub) {provider : Hex} (hne : provider ≠ pub)
    (ok : Bool) (now : Int) : (T.record provider ok now).Unobserved pub := by
  have hnote := h.noteRegistered provider now
  exact
    { last := by rw [CustodyLiveness.record, JsMap.get?_set_ne _ _ hne]; exact hnote.last
      failStreak := by
        rw [CustodyLiveness.record, JsMap.get?_set_ne _ _ hne]
        exact hnote.failStreak }

theorem firstSeen_record_of_ne {provider : Hex} (hne : provider ≠ pub) (ok : Bool) (now : Int) :
    (T.record provider ok now).firstSeen.get? pub = T.firstSeen.get? pub := by
  have hnote := firstSeen_noteRegistered T provider pub now
  rw [if_neg hne] at hnote
  exact hnote

end CustodyLiveness

/-! ## The record a question is answered from -/

section Record

open WatchedProvider (offeredSince)

variable {P : Primitives F} {maxOfflineMs : Int} {L : ProviderLedger F} {T : CustodyLiveness}
  {pub : Hex}

@[simp] theorem offeredSince_some (p : StorageProviderState F) :
    offeredSince (some p) =
      if JsNumber.le p.capacityGB (JsNumber.ofInt 0) then none else some p.registeredAt := by
  rw [offeredSince, Option.filter_some]
  cases JsNumber.le p.capacityGB (JsNumber.ofInt 0) <;> rfl

theorem isLive_of_unobserved (h : T.Unobserved pub) (now : Int) :
    (L.isLive maxOfflineMs T pub now).1 =
      (offeredSince (L.get pub)).any fun since =>
        now - (T.firstSeen.get? pub).getD since < maxOfflineMs := by
  unfold ProviderLedger.isLive
  cases L.get pub with
  | none => rfl
  | some p =>
    cases hcap : JsNumber.le p.capacityGB (JsNumber.ofInt 0) with
    | true => simp [hcap]
    | false =>
      simp [hcap, (h.noteRegistered pub p.registeredAt).isLive,
        CustodyLiveness.firstSeen_noteRegistered]

theorem tracker_isLive (provider : Hex) (now : Int) :
    (L.isLive maxOfflineMs T provider now).2 =
      ((offeredSince (L.get provider)).map (T.noteRegistered provider)).getD T := by
  unfold ProviderLedger.isLive
  cases L.get provider with
  | none => rfl
  | some p =>
    cases hcap : JsNumber.le p.capacityGB (JsNumber.ofInt 0) with
    | true => simp [hcap]
    | false => simp [hcap]

theorem offeredSince_applyRegister (block : BlockContent F) :
    offeredSince ((L.applyRegister block).get block.accountId) =
      if JsNumber.le ((block.storage.bind StoragePayload.capacityGB).getD (JsNumber.ofInt 0))
          (JsNumber.ofInt 0 : F) then none
      else
        some (((L.durable.get? block.accountId).map
          DurableRecord.firstRegisteredAt).getD block.timestamp) := by
  have hage : ((L.durable.get? block.accountId).getD ⟨block.timestamp, 0⟩).firstRegisteredAt =
      ((L.durable.get? block.accountId).map
        DurableRecord.firstRegisteredAt).getD block.timestamp := by
    cases L.durable.get? block.accountId <;> rfl
  simp only [ProviderLedger.applyRegister, ProviderLedger.pushCapacity, ProviderLedger.get,
    JsMap.get?_set_self, Option.some_or, ProviderLedger.updateScore, offeredSince_some, hage]

theorem get_applyRegister_of_ne {block : BlockContent F} (hne : block.accountId ≠ pub) :
    (L.applyRegister block).get pub = L.get pub := by
  simp only [ProviderLedger.applyRegister, ProviderLedger.pushCapacity, ProviderLedger.get,
    JsMap.get?_set_ne _ _ hne]

theorem get_applyDeregister (block : BlockContent F) :
    (L.applyDeregister block).get pub =
      if block.accountId = pub then L.discovered.get? pub else L.get pub := by
  simp only [ProviderLedger.applyDeregister, ProviderLedger.pushCapacity, ProviderLedger.get,
    JsMap.get?_delete]
  split <;> simp_all

theorem offeredSince_applySettle (block : BlockContent F) :
    offeredSince ((ProviderLedger.applySettle P L block).get pub) = offeredSince (L.get pub) := by
  unfold ProviderLedger.applySettle
  split
  case h_1 st periodIndex hst hperiod =>
    cases hheld : L.providers.get? block.accountId with
    | none => simp only [ProviderLedger.get, hheld]
    | some p =>
      simp only [ProviderLedger.get, hheld, JsMap.get?_set]
      split
      case isTrue heq =>
        simp [← heq, hheld]
      case isFalse => rfl
  case h_2 => rfl

omit [JsNumber F] in
theorem get?_foldl_set (records : List (StorageProviderState F)) :
    (records.foldl (fun m r => m.set r.pub r) JsMap.empty).get? pub =
      records.reverse.find? fun r => r.pub = pub := by
  induction records using List.reverseRecOn with
  | nil => rfl
  | append_singleton records r ih =>
    rw [List.foldl_append, List.foldl_cons, List.foldl_nil, JsMap.get?_set, ih,
      List.reverse_append, List.reverse_singleton, List.singleton_append, List.find?_cons]
    by_cases hr : r.pub = pub
    · simp [hr]
    · simp [hr]

end Record

/-! ## One call -/

namespace WatchedProvider

variable {P : Primitives F} {maxOfflineMs : Int} {pub : Hex} {s : WatchedProvider F}
  {call : LedgerCall F} {since : Int}

/-- A call brings a record out, or leaves the one that was shown. -/
theorem offeredSince_step :
    offeredSince ((s.step P maxOfflineMs pub call).ledger.get pub) = s.broughtOut pub call ∨
      (s.broughtOut pub call = none ∧
        offeredSince ((s.step P maxOfflineMs pub call).ledger.get pub) =
          offeredSince (s.ledger.get pub)) := by
  cases call with
  | isLive provider now => exact Or.inr ⟨rfl, rfl⟩
  | observe provider ok now => exact Or.inr ⟨rfl, rfl⟩
  | setDiscovered records now =>
    simp only [WatchedProvider.step, LedgerCall.serve, ProviderLedger.setDiscovered,
      ProviderLedger.get, WatchedProvider.broughtOut, get?_foldl_set]
    cases hhas : s.ledger.providers.has pub with
    | false =>
      rw [(JsMap.has_eq_false_iff _ _).mp hhas]
      exact Or.inl rfl
    | true =>
      obtain ⟨p, hheld⟩ := (JsMap.has_iff _ _).mp hhas
      rw [hheld]
      exact Or.inr ⟨rfl, rfl⟩
  | apply block now =>
    simp only [WatchedProvider.step, LedgerCall.serve, WatchedProvider.broughtOut,
      ProviderLedger.apply]
    by_cases hpub : block.accountId = pub
    case neg =>
      rw [if_pos hpub]
      refine Or.inr ⟨rfl, ?_⟩
      cases block.type with
      | storageRegister => exact congrArg offeredSince (get_applyRegister_of_ne hpub)
      | storageDeregister =>
        exact congrArg offeredSince ((get_applyDeregister block).trans (if_neg hpub))
      | storageSettle => exact offeredSince_applySettle block
      | _ => rfl
    case pos =>
      rw [if_neg (not_not.mpr hpub)]
      cases block.type with
      | storageRegister =>
        left
        rw [← hpub]
        exact offeredSince_applyRegister block
      | storageDeregister =>
        left
        exact congrArg offeredSince ((get_applyDeregister block).trans (if_pos hpub))
      | storageSettle => exact Or.inr ⟨rfl, offeredSince_applySettle block⟩
      | _ => exact Or.inr ⟨rfl, rfl⟩

theorem firstKnown_step
    (h : offeredSince ((s.step P maxOfflineMs pub call).ledger.get pub) = some since) :
    (s.step P maxOfflineMs pub call).firstKnown = some (s.firstKnown.getD call.time) := by
  have hget : ∃ p, (s.step P maxOfflineMs pub call).ledger.get pub = some p := by
    cases hrecord : (s.step P maxOfflineMs pub call).ledger.get pub with
    | none =>
      rw [hrecord] at h
      cases h
    | some p => exact ⟨p, rfl⟩
  obtain ⟨p, hp⟩ := hget
  have hfirst : (s.step P maxOfflineMs pub call).firstKnown =
      s.firstKnown.or
        (((s.step P maxOfflineMs pub call).ledger.get pub).map fun _ => call.time) := rfl
  rw [hfirst, hp]
  cases s.firstKnown <;> rfl

theorem firstKnown_step_of_some {T : Int} (h : s.firstKnown = some T) :
    (s.step P maxOfflineMs pub call).firstKnown = some T := by
  have hfirst : (s.step P maxOfflineMs pub call).firstKnown =
      s.firstKnown.or
        (((s.step P maxOfflineMs pub call).ledger.get pub).map fun _ => call.time) := rfl
  rw [hfirst, h, Option.some_or]

theorem firstSeen_step (hno : ∀ ok now, call ≠ .observe pub ok now) :
    (s.step P maxOfflineMs pub call).liveness.firstSeen.get? pub =
        s.liveness.firstSeen.get? pub ∨
      (s.step P maxOfflineMs pub call).ledger = s.ledger ∧
        ∃ since, offeredSince (s.ledger.get pub) = some since ∧
          (s.step P maxOfflineMs pub call).liveness.firstSeen.get? pub =
            some ((s.liveness.firstSeen.get? pub).getD since) := by
  cases call with
  | apply block now => exact Or.inl rfl
  | setDiscovered records now => exact Or.inl rfl
  | observe provider ok now =>
    have hne : provider ≠ pub := fun heq => hno ok now (by rw [heq])
    exact Or.inl (CustodyLiveness.firstSeen_record_of_ne hne ok now)
  | isLive provider now =>
    simp only [WatchedProvider.step, LedgerCall.serve, tracker_isLive]
    cases hoffered : offeredSince (s.ledger.get provider) with
    | none => exact Or.inl rfl
    | some since =>
      simp only [Option.map_some, Option.getD_some, CustodyLiveness.firstSeen_noteRegistered]
      by_cases heq : provider = pub
      · rw [if_pos heq, ← heq, hoffered]
        exact Or.inr ⟨trivial, since, rfl, rfl⟩
      · rw [if_neg heq]
        exact Or.inl rfl

theorem unobserved_step (h : s.liveness.Unobserved pub)
    (hno : ∀ ok now, call ≠ .observe pub ok now) :
    (s.step P maxOfflineMs pub call).liveness.Unobserved pub := by
  cases call with
  | apply block now => exact h
  | setDiscovered records now => exact h
  | observe provider ok now =>
    exact h.record (fun heq => hno ok now (by rw [heq])) ok now
  | isLive provider now =>
    simp only [WatchedProvider.step, LedgerCall.serve, tracker_isLive]
    cases offeredSince (s.ledger.get provider) with
    | none => exact h
    | some since => exact h.noteRegistered provider since

theorem getD_firstSeen_step (hno : ∀ ok now, call ≠ .observe pub ok now)
    (h : offeredSince ((s.step P maxOfflineMs pub call).ledger.get pub) = some since) :
    ((s.step P maxOfflineMs pub call).liveness.firstSeen.get? pub).getD since =
      (s.liveness.firstSeen.get? pub).getD since := by
  rcases firstSeen_step hno with hsame | ⟨hledger, since', hoffered, hnow⟩
  · rw [hsame]
  · rw [hledger, hoffered] at h
    cases h
    rw [hnow, Option.getD_some]

/-! ## Runs -/

/-- The grace of a provider nobody has read from ends one window after it became known. -/
structure InTime (pub : Hex) (s : WatchedProvider F) : Prop where
  unobserved : s.liveness.Unobserved pub
  started : ∀ first, s.liveness.firstSeen.get? pub = some first →
    ∃ T, s.firstKnown = some T ∧ first ≤ T
  offered : s.liveness.firstSeen.get? pub = none →
    ∀ since, offeredSince (s.ledger.get pub) = some since → ∃ T, s.firstKnown = some T ∧ since ≤ T

theorem expires_iff (h : s.liveness.Unobserved pub) :
    s.Expires maxOfflineMs pub ↔
      ∀ since, offeredSince (s.ledger.get pub) = some since →
        ∀ T, s.firstKnown = some T → (s.liveness.firstSeen.get? pub).getD since ≤ T := by
  constructor
  · intro hexpires since hsince T hT
    have hlapsed := hexpires T hT (T + maxOfflineMs) (le_refl _)
    rw [isLive_of_unobserved h, hsince, Option.any_some, decide_eq_false_iff_not] at hlapsed
    omega
  · intro hdates T hT now hnow
    rw [isLive_of_unobserved h]
    cases hoffered : offeredSince (s.ledger.get pub) with
    | none => rfl
    | some since =>
      have hdate := hdates since hoffered T hT
      rw [Option.any_some, decide_eq_false_iff_not]
      omega

theorem inTime_start : (start : WatchedProvider F).InTime pub where
  unobserved := ⟨rfl, rfl⟩
  started first hfirst := by cases hfirst
  offered _ since hsince := by cases hsince

theorem expires_step_iff (h : s.InTime pub) (hno : ∀ ok now, call ≠ .observe pub ok now) :
    (s.step P maxOfflineMs pub call).Expires maxOfflineMs pub ↔ s.DatedInTime pub call := by
  have hshows := @offeredSince_step F _ P maxOfflineMs pub s call
  rw [expires_iff (unobserved_step h.unobserved hno)]
  constructor
  · intro hdates hunseen since hout
    have hoffered : offeredSince ((s.step P maxOfflineMs pub call).ledger.get pub) =
        some since := by
      rcases hshows with hshown | ⟨hnone, -⟩
      · exact hshown.trans hout
      · rw [hnone] at hout
        cases hout
    have hdate := hdates since hoffered _ (firstKnown_step hoffered)
    rw [getD_firstSeen_step hno hoffered, hunseen] at hdate
    exact hdate
  · intro hcall since hoffered T hT
    have hfirst := firstKnown_step hoffered
    rw [hT, Option.some.injEq] at hfirst
    rw [getD_firstSeen_step hno hoffered, hfirst]
    cases hseen : s.liveness.firstSeen.get? pub with
    | some first =>
      obtain ⟨T', hknown, hle⟩ := h.started first hseen
      rw [hknown]
      exact hle
    | none =>
      rcases hshows with hshown | ⟨-, hsame⟩
      · exact hcall hseen since (hshown.symm.trans hoffered)
      · obtain ⟨T', hknown, hle⟩ := h.offered hseen since (hsame.symm.trans hoffered)
        rw [hknown]
        exact hle

theorem inTime_step (h : s.InTime pub) (hno : ∀ ok now, call ≠ .observe pub ok now)
    (hexpires : (s.step P maxOfflineMs pub call).Expires maxOfflineMs pub) :
    (s.step P maxOfflineMs pub call).InTime pub := by
  have hunobserved : (s.step P maxOfflineMs pub call).liveness.Unobserved pub :=
    unobserved_step h.unobserved hno
  refine ⟨hunobserved, ?_, ?_⟩
  · intro first hfirst
    have hbefore : ∃ T, s.firstKnown = some T ∧ first ≤ T := by
      rcases firstSeen_step hno with hsame | ⟨-, since, hoffered, hnow⟩
      · exact h.started first (hsame.symm.trans hfirst)
      · rw [hnow] at hfirst
        cases hfirst
        cases hseen : s.liveness.firstSeen.get? pub with
        | some first => exact h.started first hseen
        | none => exact h.offered hseen since hoffered
    obtain ⟨T, hknown, hle⟩ := hbefore
    exact ⟨T, firstKnown_step_of_some hknown, hle⟩
  · intro hunseen since hoffered
    have hdate := (expires_iff hunobserved).mp hexpires since hoffered _ (firstKnown_step hoffered)
    rw [hunseen] at hdate
    exact ⟨_, firstKnown_step hoffered, hdate⟩

end WatchedProvider

open WatchedProvider in
/-- In a run in which a provider is never read from, it stops being live one window after it
became known, whatever is asked, exactly as long as no record of it is brought out with a later
date before the grace has started. -/
theorem unobserved_expires_iff (P : Primitives F) (maxOfflineMs : Int) (pub : Hex)
    (calls : List (LedgerCall F)) (unobserved : ∀ ok now, LedgerCall.observe pub ok now ∉ calls) :
    Run.EveryStep (step P maxOfflineMs pub) (fun _ _ after => after.Expires maxOfflineMs pub)
        start calls ↔
      Run.StepsMeet (step P maxOfflineMs pub) (fun s call => s.DatedInTime pub call)
        start calls := by
  have hno : Run.StepsMeet (step P maxOfflineMs pub)
      (fun _ call => ∀ ok now, call ≠ .observe pub ok now) start calls := by
    refine Run.stepsMeet_of_mem (fun call hcall _ ok now heq => ?_) start
    exact unobserved ok now (heq ▸ hcall)
  exact Run.everyStep_iff_stepsMeet_of_kept (fun s call => inTime_step)
    (fun s call => expires_step_iff) inTime_start hno

/-! ## Two providers nobody reads from -/

namespace WatchedProvider

/-- A register of provider `aa` with the date it writes into it. -/
def registerDated (timestamp : Int) : BlockContent Rat where
  accountId := "aa"
  index := 1
  type := .storageRegister
  previousHash := ""
  shard := 0
  timestamp
  balance := 0
  storage := some { capacityGB := some 10 }

/-- It registers, is asked about, leaves and comes back; somebody else is read from. -/
def honestCalls : List (LedgerCall Rat) :=
  [.apply (registerDated 4) 5, .isLive "aa" 6,
    .apply { registerDated 7 with type := .storageDeregister } 8, .apply (registerDated 50) 60,
    .observe "bb" true 61, .isLive "aa" 62]

/-- The one that came back expires all the same. -/
theorem unobserved_expires_iff_returning :
    Run.EveryStep (step Sample.primitives 100 "aa") (fun _ _ after => after.Expires 100 "aa")
      start honestCalls := by
  have hunobserved : ∀ ok now, LedgerCall.observe "aa" ok now ∉ honestCalls := by
    intro ok now hmem
    simp [honestCalls] at hmem
  refine (unobserved_expires_iff Sample.primitives 100 "aa" honestCalls hunobserved).mpr ?_
  refine ⟨?_, ?_, ?_, ?_, ?_, ?_, trivial⟩ <;> decide +kernel

/-- A first register dated a thousand ahead is live a whole window later, unobserved. -/
theorem unobserved_future_date :
    ¬∀ calls : List (LedgerCall Rat), (∀ ok now, LedgerCall.observe "aa" ok now ∉ calls) →
      Run.EveryStep (step Sample.primitives 100 "aa") (fun _ _ after => after.Expires 100 "aa")
        start calls := by
  intro hexpire
  have hrun := hexpire [.apply (registerDated 1000) 0] (by intro ok now hmem; simp at hmem)
  have hexpires : (step Sample.primitives 100 "aa" start (.apply (registerDated 1000) 0)).Expires
      100 "aa" := hrun.1
  exact absurd (hexpires 0 (by decide +kernel) 100 (by decide)) (by decide +kernel)

end WatchedProvider

end NeuronWeb
