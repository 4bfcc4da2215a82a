/-
  Relay/Usernames: names that have become permanent.

  A name is established for a human once an account that was attested with it has its open block
  in the archive. The registry has one entry for a name, which a later attempt of the same human
  takes over, and the timer gives it back with that attempt.
-/
import NeuronWeb.Relay.Sample
import NeuronWeb.Relay.Turns

set_option autoImplicit false

namespace NeuronWeb.Relay

variable {F : Type}

/-- The account was attested with the name for the human. -/
def AttestedWith (w : History F) (accountId : Hex) (u nid : String) : Prop :=
  ∃ e ∈ w.events, ∃ req, e.attestation? = some (req, accountId, nid) ∧ req.username = u

/-- ... and its open block is archived. -/
def Established (w : History F) (accountId : Hex) (u nid : String) : Prop :=
  AttestedWith w accountId u nid ∧ Opened w.relay accountId

/-- The registry has the name for the human. -/
def Registered (s : Relay F) (u nid : String) : Prop :=
  ∃ claim, s.usernameRegistry.get? u = some claim ∧ claim.nid = nid

/-- Every established name is registered for its human. -/
def NamesHeld (w : History F) : Prop :=
  ∀ accountId u nid, u ≠ "" → Established w accountId u nid → Registered w.relay u nid

section Condition

variable [JsNumber F] (P : Primitives F) (cfg : RelayConfig F)

/-- An input that leaves established names with their humans: an open block arrives while its
account's names are still registered for its humans, no one is attested with a name that is
established for another human, and the timer takes back no established name. -/
def SparesNames (w : History F) : Input F → Prop
  | .archive block _ => Opens P w.relay block → ∀ u nid,
      AttestedWith w block.accountId u nid → u ≠ "" → Registered w.relay u nid
  | .resume i uuid now => ∀ req accountId nid,
      (Event.mk w.relay (.resume i uuid now)
        (w.relay.handle P cfg (.resume i uuid now)).2).attestation? = some (req, accountId, nid) →
      req.username ≠ "" → ∀ accountId' nid', Established w accountId' req.username nid' →
      nid' = nid
  | .releaseStale now => ∀ u claim use, w.relay.usernameRegistry.get? u = some claim →
      w.relay.pendingFaceUses.get? claim.accountId = some use → stale now use = true →
      use.username = u → u ≠ "" → ∀ accountId nid, ¬ Established w accountId u nid
  | _ => True

end Condition

section Step

variable [JsNumber F] {P : Primitives F} {cfg : RelayConfig F} {w : History F}

theorem attestedWith_step (input : Input F) (accountId : Hex) (u nid : String) :
    AttestedWith (w.step P cfg input) accountId u nid ↔
      AttestedWith w accountId u nid ∨
        ∃ req, (Event.mk w.relay input (w.relay.handle P cfg input).2).attestation? =
          some (req, accountId, nid) ∧ req.username = u := by
  constructor
  · rintro ⟨e, he, req, hreq⟩
    rcases List.mem_append.mp he with he | he
    · exact .inl ⟨e, he, req, hreq⟩
    · rw [List.mem_singleton.mp he] at hreq
      exact .inr ⟨req, hreq⟩
  · rintro (⟨e, he, req, hreq⟩ | ⟨req, hreq⟩)
    · exact ⟨e, List.mem_append_left _ he, req, hreq⟩
    · exact ⟨_, List.mem_append_right _ (List.mem_singleton_self _), req, hreq⟩

theorem attestedWith_step_of_not_resume {input : Input F}
    (h : ∀ i uuid now, input ≠ .resume i uuid now) (accountId : Hex) (u nid : String) :
    AttestedWith (w.step P cfg input) accountId u nid ↔ AttestedWith w accountId u nid := by
  rw [attestedWith_step]
  refine or_iff_left ?_
  rintro ⟨req, hattests, -⟩
  obtain ⟨i, uuid, now, -, hinput, -⟩ := attestation?_eq_some hattests
  exact h i uuid now hinput

theorem namesHeld_archive (hw : NamesHeld w) (block : Block F) (network : Network) :
    NamesHeld (w.step P cfg (.archive block network)) ↔
      SparesNames P cfg w (.archive block network) := by
  have hattested : ∀ accountId u nid,
      AttestedWith (w.step P cfg (.archive block network)) accountId u nid ↔
        AttestedWith w accountId u nid :=
    attestedWith_step_of_not_resume (fun _ _ _ h => by cases h)
  have hopened : ∀ accountId, Opened (w.step P cfg (.archive block network)).relay accountId ↔
      Opened w.relay accountId ∨ Opens P w.relay block ∧ block.accountId = accountId :=
    opened_archive block network
  have hnames : (w.step P cfg (.archive block network)).relay.usernameRegistry =
      w.relay.usernameRegistry := by
    show (archiveEngineBlock P w.relay block network).usernameRegistry = _
    unfold archiveEngineBlock
    split <;> rfl
  have hregistered : ∀ u nid, Registered (w.step P cfg (.archive block network)).relay u nid ↔
      Registered w.relay u nid := by
    intro u nid
    unfold Registered
    rw [hnames]
  constructor
  · intro hafter hopens u nid hwith hne
    exact (hregistered u nid).mp (hafter block.accountId u nid hne
      ⟨(hattested _ u nid).mpr hwith, (hopened _).mpr (.inr ⟨hopens, rfl⟩)⟩)
  · rintro hspares accountId u nid hne ⟨hwith, hopen⟩
    replace hwith := (hattested accountId u nid).mp hwith
    rw [hregistered]
    rcases (hopened accountId).mp hopen with hopen | ⟨hopens, rfl⟩
    · exact hw accountId u nid hne ⟨hwith, hopen⟩
    · exact hspares hopens u nid hwith hne

theorem namesHeld_releaseStale (hw : NamesHeld w) (now : Int) :
    NamesHeld (w.step P cfg (.releaseStale now)) ↔
      SparesNames P cfg w (.releaseStale now) := by
  have hattested : ∀ accountId u nid,
      AttestedWith (w.step P cfg (.releaseStale now)) accountId u nid ↔
        AttestedWith w accountId u nid :=
    attestedWith_step_of_not_resume (fun _ _ _ h => by cases h)
  have hopened : ∀ accountId, Opened (w.step P cfg (.releaseStale now)).relay accountId ↔
      Opened w.relay accountId :=
    opened_of_store_eq (handle_engineBlockStore (fun _ _ h => by cases h))
  have hregistry : ∀ u claim,
      (w.step P cfg (.releaseStale now)).relay.usernameRegistry.get? u = some claim ↔
        w.relay.usernameRegistry.get? u = some claim ∧
          ∀ use, w.relay.pendingFaceUses.get? claim.accountId = some use →
            stale now use = true → use.username = u → u = "" :=
    fun _ _ => get?_usernameRegistry_releaseStale
  constructor
  · intro hafter u claim use hclaim huse hstale hname hne accountId nid ⟨hwith, hopen⟩
    obtain ⟨claim', hclaim', -⟩ := hafter accountId u nid hne
      ⟨(hattested _ u nid).mpr hwith, (hopened _).mpr hopen⟩
    obtain ⟨hbefore, hkept⟩ := (hregistry u claim').mp hclaim'
    cases hclaim.symm.trans hbefore
    exact hne (hkept use huse hstale hname)
  · rintro hspares accountId u nid hne ⟨hwith, hopen⟩
    have hestablished : Established w accountId u nid :=
      ⟨(hattested _ u nid).mp hwith, (hopened _).mp hopen⟩
    obtain ⟨claim, hclaim, hnid⟩ := hw accountId u nid hne hestablished
    refine ⟨claim, (hregistry u claim).mpr ⟨hclaim, ?_⟩, hnid⟩
    intro use huse hstale hname
    by_contra hnamed
    exact hspares u claim use hclaim huse hstale hname hnamed accountId nid hestablished

theorem resume_usernameRegistry {i : Nat} {uuid : String} {now : Int}
    (h : (Event.mk w.relay (.resume i uuid now)
      (w.relay.handle P cfg (.resume i uuid now)).2).attestation? = none) :
    (w.relay.handle P cfg (.resume i uuid now)).1.usernameRegistry =
      w.relay.usernameRegistry := by
  show (w.relay.resume P cfg i uuid now).1.usernameRegistry = _
  obtain ⟨-, hr⟩ | ⟨_, _, _, -, ⟨_, _, _, -, hr⟩ | ⟨-, -, hr⟩⟩ |
      ⟨req, accountId, nid, faceCount, hframe, hr | ⟨_, _, hr⟩⟩ :=
    resume_cases P cfg w.relay i uuid now
  · rw [hr]
  · rw [hr]
  · rw [hr]
    rfl
  · rw [hr]
  · replace h : (Event.mk w.relay (.resume i uuid now)
      (w.relay.resume P cfg i uuid now).2).attestation? = none := h
    rw [hr] at h
    simp only [Event.attestation?, Event.turn, hframe, Option.join_some] at h
    cases h

theorem namesHeld_resume (hw : NamesHeld w) (i : Nat) (uuid : String) (now : Int) :
    NamesHeld (w.step P cfg (.resume i uuid now)) ↔
      SparesNames P cfg w (.resume i uuid now) := by
  have hopened : ∀ accountId, Opened (w.step P cfg (.resume i uuid now)).relay accountId ↔
      Opened w.relay accountId :=
    opened_of_store_eq (handle_engineBlockStore (fun _ _ h => by cases h))
  cases hattests : (Event.mk w.relay (.resume i uuid now)
      (w.relay.handle P cfg (.resume i uuid now)).2).attestation? with
  | none =>
    -- no attestation: nothing that the names rest on changes
    have hattested : ∀ accountId u nid,
        AttestedWith (w.step P cfg (.resume i uuid now)) accountId u nid ↔
          AttestedWith w accountId u nid := by
      intro accountId u nid
      rw [attestedWith_step, hattests]
      exact or_iff_left fun ⟨_, h, _⟩ => by cases h
    have hnames : (w.step P cfg (.resume i uuid now)).relay.usernameRegistry =
        w.relay.usernameRegistry := resume_usernameRegistry hattests
    constructor
    · intro _ req accountId nid h
      rw [hattests] at h
      cases h
    · rintro - accountId u nid hne ⟨hwith, hopen⟩
      obtain ⟨claim, hclaim, hnid⟩ := hw accountId u nid hne
        ⟨(hattested _ u nid).mp hwith, (hopened _).mp hopen⟩
      exact ⟨claim, by rw [hnames, hclaim], hnid⟩
  | some attestation =>
    obtain ⟨req, accountId, nid⟩ := attestation
    obtain ⟨_, _, _, _, -, -, hafter⟩ := attestation?_eq_some hattests
    have hnames : (w.step P cfg (.resume i uuid now)).relay.usernameRegistry =
        if req.username = "" then w.relay.usernameRegistry
        else w.relay.usernameRegistry.set req.username ⟨accountId, nid⟩ :=
      congrArg Relay.usernameRegistry hafter
    constructor
    · intro hheld req' accountId' nid' h hne accountId'' nid'' ⟨hwith, hopen⟩
      rw [hattests] at h
      cases h
      obtain ⟨claim, hclaim, hnid⟩ := hheld accountId'' req.username nid'' hne
        ⟨(attestedWith_step _ _ _ _).mpr (.inl hwith), (hopened _).mpr hopen⟩
      rw [hnames, if_neg hne, JsMap.get?_set_self] at hclaim
      rw [← hnid, ← Option.some.inj hclaim]
    · rintro hspares accountId' u nid' hne ⟨hwith, hopen⟩
      replace hwith := (attestedWith_step _ _ _ _).mp hwith
      replace hopen := (hopened _).mp hopen
      by_cases hu : req.username = u
      · have hset : Registered (w.step P cfg (.resume i uuid now)).relay u nid := by
          refine ⟨⟨accountId, nid⟩, ?_, rfl⟩
          rw [hnames, if_neg (by rw [hu]; exact hne), hu, JsMap.get?_set_self]
        have hsame : nid' = nid := by
          rcases hwith with hwith | ⟨req', h, -⟩
          · exact hspares req accountId nid hattests (by rw [hu]; exact hne) accountId' nid'
              (by rw [hu]; exact ⟨hwith, hopen⟩)
          · rw [hattests] at h
            cases h
            rfl
        rw [hsame]
        exact hset
      · have hbefore : AttestedWith w accountId' u nid' := by
          rcases hwith with hwith | ⟨req', h, hname⟩
          · exact hwith
          · rw [hattests] at h
            cases h
            exact absurd hname hu
        obtain ⟨claim, hclaim, hnid⟩ := hw accountId' u nid' hne ⟨hbefore, hopen⟩
        refine ⟨claim, ?_, hnid⟩
        rw [hnames]
        split
        · exact hclaim
        · rw [JsMap.get?_set_ne _ _ hu, hclaim]

theorem namesHeld_other {input : Input F} (hsettles : ¬ Settles input) (hw : NamesHeld w) :
    NamesHeld (w.step P cfg input) := by
  obtain ⟨-, hnames, -, harchive⟩ :
      (w.relay.handle P cfg input).1.pendingFaceUses = w.relay.pendingFaceUses ∧
      (w.relay.handle P cfg input).1.usernameRegistry = w.relay.usernameRegistry ∧
      (w.relay.handle P cfg input).1.faceDescriptorDB = w.relay.faceDescriptorDB ∧
      (w.relay.handle P cfg input).1.engineBlockStore = w.relay.engineBlockStore :=
    handle_frame hsettles
  have hopened := opened_of_store_eq harchive
  rintro accountId u nid hne ⟨hwith, hopen⟩
  have hbefore := (attestedWith_step_of_not_resume
    (by rintro i uuid now rfl; exact hsettles trivial) accountId u nid).mp hwith
  obtain ⟨claim, hclaim, hnid⟩ := hw accountId u nid hne ⟨hbefore, (hopened _).mp hopen⟩
  exact ⟨claim, by rw [← hclaim]; exact congrArg (fun m => m.get? u) hnames, hnid⟩

theorem namesHeld_step (hw : NamesHeld w) (input : Input F) :
    NamesHeld (w.step P cfg input) ↔ SparesNames P cfg w input := by
  cases input with
  | resume i uuid now => exact namesHeld_resume hw i uuid now
  | archive block network => exact namesHeld_archive hw block network
  | releaseStale now => exact namesHeld_releaseStale hw now
  | _ => exact iff_of_true (namesHeld_other id hw) trivial

end Step

section Runs

variable [JsNumber F] (P : Primitives F) (cfg : RelayConfig F)

/-- Established names stay with their humans throughout a run exactly when every input of it
spares them. -/
theorem namesHeld_iff (inputs : List (Input F)) :
    Run.Always (History.step P cfg) NamesHeld History.new inputs ↔
      Run.StepsMeet (History.step P cfg) (SparesNames P cfg) History.new inputs := by
  have hnew : NamesHeld (History.new : History F) := by
    rintro accountId u nid - ⟨⟨e, he, -⟩, -⟩
    cases he
  exact Run.always_iff_stepsMeet (I := fun _ => True) (fun _ _ _ => trivial)
    (fun _ input _ hw => namesHeld_step hw input) trivial hnew

end Runs

section Samples

open NeuronWeb.Sample (relayConfig enrol openBlock)

/-- An account that is attested with a name and opened. -/
def anOpenedAccount : List (Input Rat) :=
  [.challenge "127.0.0.1" .testnet "c" true 0, .verify (enrol .testnet "02a" "ann" "c" 0) 1,
    .resume 0 "n" 2, .resume 0 "" 3, .archive (openBlock "02a") .testnet]

/-- The same human asks for a second account under the name, and never opens it. -/
def anAbandonedAttempt : List (Input Rat) :=
  [.challenge "127.0.0.1" .testnet "d" true 10, .verify (enrol .testnet "02b" "ann" "d" 0) 11,
    .resume 1 "" 12, .resume 1 "" 13, .releaseStale 400000]

/-- Whether a name is established, looked up. -/
def showsEstablished (w : History F) (accountId : Hex) (u nid : String) : Bool :=
  (w.events.any fun e => e.attestation?.any fun a =>
    decide (a.1.username = u ∧ a.2.1 = accountId ∧ a.2.2 = nid)) &&
  w.relay.engineBlockStore.entries.any fun row =>
    decide (row.2.accountId = accountId ∧ row.2.type = .open)

theorem established_of_shows {w : History F} {accountId : Hex} {u nid : String}
    (h : showsEstablished w accountId u nid = true) : Established w accountId u nid := by
  simp only [showsEstablished, Bool.and_eq_true, List.any_eq_true, decide_eq_true_eq] at h
  obtain ⟨⟨e, he, hattests⟩, ⟨hash, row⟩, hrow, haccount, htype⟩ := h
  obtain ⟨⟨req, accountId', nid'⟩, hattestation, hsame⟩ := (Option.any_eq_true _ _).mp hattests
  simp only [decide_eq_true_eq] at hsame
  obtain ⟨hname, rfl, rfl⟩ := hsame
  exact ⟨⟨e, he, req, hattestation, hname⟩, hash, row,
    (JsMap.get?_eq_some_iff _ _ _).mpr hrow, haccount, htype⟩

/-- The name of an opened account is free again. -/
theorem abandoned_attempt_frees :
    ¬ NamesHeld (Run.final (History.step Sample.primitives relayConfig) History.new
      (anOpenedAccount ++ anAbandonedAttempt)) := by
  intro h
  have hestablished : Established (Run.final (History.step Sample.primitives relayConfig)
      History.new (anOpenedAccount ++ anAbandonedAttempt)) "02a" "ann" "n" :=
    established_of_shows (by decide +kernel)
  have hfree : (Run.final (History.step Sample.primitives relayConfig) History.new
      (anOpenedAccount ++ anAbandonedAttempt)).relay.usernameRegistry.has "ann" = false := by
    decide +kernel
  obtain ⟨claim, hclaim, -⟩ := h "02a" "ann" "n" (by decide) hestablished
  rw [(JsMap.has_eq_false_iff _ _).mp hfree] at hclaim
  cases hclaim

end Samples

end NeuronWeb.Relay
