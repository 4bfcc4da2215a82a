/-
  Relay/Turns: what one input can do to a relay, and a relay with its past.

  Each handler has one lemma that lists its ways out (`verify_cases`, `commit_cases`,
  `attest_cases`, `storeShare_cases`, `releaseShare_cases`); the invariants of a relay are
  proved from these.  A claim about what a relay has answered so far is a claim about its
  `History`.
-/
import NeuronWeb.Foundation.Run
import NeuronWeb.Relay.Timer

set_option autoImplicit false

namespace NeuronWeb.Relay

variable {F : Type}

/-! ## Sessions -/

section Pieces

variable {s : Relay F}

theorem session?_eq_some {id : String} {session : ChallengeSession}
    (h : s.session? id = some session) :
    s.challengeSessions.has id = true ∧ s.sessions.get? id = some session := by
  unfold session? at h
  split at h
  · exact ⟨‹_›, h⟩
  · cases h

theorem get?_spend (s : Relay F) (id j : String) : (s.spend id).sessions.get? j =
    if id = j then (s.sessions.get? id).map fun session => { session with used := true }
    else s.sessions.get? j := by
  unfold spend
  dsimp only
  split
  · next session hsession =>
      rw [JsMap.get?_set, hsession]
      rfl
  · next hnone =>
      split
      · next heq => rw [← heq, hnone]; rfl
      · rfl

theorem get?_spend_of_unused {id : String} (j : String) {session : ChallengeSession}
    (h : (s.spend j).sessions.get? id = some session) (hused : session.used = false) :
    j ≠ id ∧ s.sessions.get? id = some session := by
  rw [get?_spend] at h
  split at h
  · obtain ⟨before, -, hbefore⟩ := Option.map_eq_some_iff.mp h
    rw [← hbefore] at hused
    cases hused
  · exact ⟨‹_›, h⟩

/-- The ids that the relay draws are new: `randomUUID()` does not repeat itself. -/
def DrawsFresh (s : Relay F) : Input F → Prop
  | .challenge _ _ id _ _ | .recoveryChallenge _ id _ _ => s.sessions.get? id = none
  | _ => True

theorem spend_kept {id : String} {session : ChallengeSession}
    (h : s.sessions.get? id = some session) (j : String) :
    ∃ session', (s.spend j).sessions.get? id = some session' ∧
      session'.type = session.type ∧ (session.used = true → session'.used = true) := by
  rw [get?_spend]
  split
  · next heq =>
      rw [heq, h]
      exact ⟨_, rfl, rfl, fun _ => rfl⟩
  · exact ⟨session, h, rfl, fun hu => hu⟩

end Pieces

theorem countP_set_of_get {α : Type} {l : List α} {i : Nat} {before : α}
    (h : l[i]? = some before) (p : α → Bool) (after : α) :
    (l.set i after).countP p + (if p before then 1 else 0) =
      l.countP p + (if p after then 1 else 0) := by
  obtain ⟨hi, hget⟩ := List.getElem?_eq_some_iff.mp h
  have hle : (if p l[i] = true then 1 else 0) ≤ l.countP p := by
    split
    · next hp => exact List.countP_pos_iff.mpr ⟨l[i], List.getElem_mem hi, hp⟩
    · exact Nat.zero_le _
  rw [List.countP_set hi, ← hget]
  omega

/-! ## The ways out of a handler -/

section Handlers

variable [JsNumber F] (P : Primitives F) (cfg : RelayConfig F) {s : Relay F}

section

variable (s : Relay F)

/-- `/face-verify/verify` refuses, forgets an expired challenge, or waits for the hash. -/
theorem verify_cases (req : VerifyRequest F) (now : Int) :
    (∃ message, s.verify req now = (s, some (.error 400 message))) ∨
    (∃ message, s.verify req now =
      ({ s with challengeSessions := s.challengeSessions.delete req.challengeId },
        some (.error 400 message))) ∨
    ∃ accountId session descriptor,
      s.session? req.challengeId = some session ∧ session.type ≠ "recovery" ∧
        session.used = false ∧ req.descriptor = some descriptor ∧
        req.accountId = some accountId ∧
        s.verify req now =
          ({ s with handlers := s.handlers ++ [some (.hashing req accountId descriptor)] },
            none) := by
  unfold verify
  split
  · exact .inl ⟨_, rfl⟩
  · next accountId haccount =>
      split
      · exact .inl ⟨_, rfl⟩
      · next session hsession =>
          split
          · exact .inl ⟨_, rfl⟩
          · split
            · exact .inl ⟨_, rfl⟩
            · split
              · exact .inr (.inl ⟨_, rfl⟩)
              · split
                · exact .inl ⟨_, rfl⟩
                · next htype hused _ _ descriptor hdescriptor =>
                    exact .inr (.inr ⟨accountId, session, descriptor, hsession, htype,
                      Bool.eq_false_iff.mpr hused, (Option.filter_eq_some_iff.mp hdescriptor).1,
                      (Option.filter_eq_some_iff.mp haccount).1, rfl⟩)

/-- The human that a live face is taken for. -/
def nidFor (s : Relay F) (descriptor : List F) (network : Network) (uuid : String) : String :=
  nidOf (findMatchingFace s.faceDescriptorDB descriptor network) uuid

/-- The state once a verify request has taken its slot. -/
def committed (s : Relay F) (req : VerifyRequest F) (descriptor : List F) (uuid : String)
    (now : Int) : Relay F :=
  { (s.spend req.challengeId).recordIpVerification req.ip now with
    faceDescriptorDB :=
      takeSlot s.faceDescriptorDB (findMatchingFace s.faceDescriptorDB descriptor req.network)
        descriptor req.network (s.nidFor descriptor req.network uuid) }

/-- The face database is as before, but that the face may have been given its nid. -/
def AtMostNamed (s : Relay F) (req : VerifyRequest F) (descriptor : List F) (uuid : String)
    (db : List (FaceEntry F)) : Prop :=
  db = s.faceDescriptorDB ∨
    db = nameFace s.faceDescriptorDB (findMatchingFace s.faceDescriptorDB descriptor req.network)
      (s.nidFor descriptor req.network uuid)

/-- After the hash a handler answers an error, at most naming the face, or it spends the
challenge and takes a slot that is free. -/
theorem commit_cases (req : VerifyRequest F) (accountId : Hex)
    (descriptor : List F) (uuid : String) (now : Int) :
    (∃ db status message, s.AtMostNamed req descriptor uuid db ∧
      commit P cfg s req accountId descriptor uuid now =
        ({ s with faceDescriptorDB := db }, .error (.error status message))) ∨
    (s.faceCount descriptor req.network < cfg.FACE_MAX req.network ∧
      commit P cfg s req accountId descriptor uuid now =
        (s.committed req descriptor uuid now,
          .ok (.saving req accountId (s.nidFor descriptor req.network uuid)
            (s.faceCount descriptor req.network)))) := by
  unfold commit
  split
  · exact .inl ⟨s.faceDescriptorDB, _, _, .inl rfl, rfl⟩
  · split
    · exact .inl ⟨s.faceDescriptorDB, _, _, .inl rfl, rfl⟩
    · dsimp only
      split
      · exact .inl ⟨s.faceDescriptorDB, _, _, .inl rfl, rfl⟩
      · next hcount =>
          split
          · exact .inl ⟨_, _, _, .inr rfl, rfl⟩
          · exact .inr ⟨Nat.lt_of_not_le hcount, rfl⟩

/-- The state once a verify request has been attested. -/
def attested (s : Relay F) (req : VerifyRequest F) (accountId : Hex) (nid : String)
    (now : Int) : Relay F :=
  recordOperator
    { s with
      pendingFaceUses := s.pendingFaceUses.set accountId ⟨nid, req.username, now, req.network⟩
      usernameRegistry :=
        if req.username = "" then s.usernameRegistry
        else s.usernameRegistry.set req.username ⟨accountId, nid⟩ }
    accountId

omit [JsNumber F] in
theorem attest_cases (req : VerifyRequest F) (accountId : Hex) (nid : String)
    (faceCount : Nat) (now : Int) :
    attest P cfg s req accountId nid faceCount now = (s, .crashed) ∨
    ∃ nullifier attestation, attest P cfg s req accountId nid faceCount now =
      (s.attested req accountId nid now, .attested nullifier attestation cfg.attesterPub) := by
  unfold attest
  dsimp only
  split
  · exact .inl rfl
  · exact .inr ⟨_, _, rfl⟩

/-- The turn of a verify handler: it has none, it commits or it attests. -/
theorem resume_cases (i : Nat) (uuid : String) (now : Int) :
    (s.handlers[i]?.join = none ∧ s.resume P cfg i uuid now = (s, none)) ∨
    (∃ req accountId descriptor,
      s.handlers[i]? = some (some (.hashing req accountId descriptor)) ∧
      ((∃ db status message, s.AtMostNamed req descriptor uuid db ∧
          s.resume P cfg i uuid now =
            ({ s with faceDescriptorDB := db, handlers := s.handlers.set i none },
              some (.error status message))) ∨
        (s.faceCount descriptor req.network < cfg.FACE_MAX req.network ∧
          (commit P cfg s req accountId descriptor uuid now).2 =
            .ok (.saving req accountId (s.nidFor descriptor req.network uuid)
              (s.faceCount descriptor req.network)) ∧
          s.resume P cfg i uuid now =
            ({ s.committed req descriptor uuid now with
                handlers := s.handlers.set i (some (.saving req accountId
                  (s.nidFor descriptor req.network uuid)
                  (s.faceCount descriptor req.network))) },
              none)))) ∨
    ∃ req accountId nid faceCount,
      s.handlers[i]? = some (some (.saving req accountId nid faceCount)) ∧
      (s.resume P cfg i uuid now =
          ({ s with handlers := s.handlers.set i none }, some .crashed) ∨
        ∃ nullifier attestation, s.resume P cfg i uuid now =
          ({ s.attested req accountId nid now with handlers := s.handlers.set i none },
            some (.attested nullifier attestation cfg.attesterPub))) := by
  unfold resume
  split
  · next req accountId descriptor hframe =>
      refine .inr (.inl ⟨req, accountId, descriptor, hframe, ?_⟩)
      obtain ⟨db, status, message, hdb, hcommit⟩ | ⟨hcount, hcommit⟩ :=
        commit_cases P cfg s req accountId descriptor uuid now
      · exact .inl ⟨db, status, message, hdb, by rw [hcommit]⟩
      · exact .inr ⟨hcount, by rw [hcommit], by rw [hcommit]; rfl⟩
  · next req accountId nid faceCount hframe =>
      refine .inr (.inr ⟨req, accountId, nid, faceCount, hframe, ?_⟩)
      obtain hattest | ⟨nullifier, attestation, hattest⟩ :=
        attest_cases P cfg s req accountId nid faceCount now
      · exact .inl (by rw [hattest])
      · exact .inr ⟨nullifier, attestation, by rw [hattest]; rfl⟩
  · next hhashing hsaving =>
      refine .inl ⟨?_, rfl⟩
      rcases hframe : s.handlers[i]? with _ | _ | frame
      · rfl
      · rfl
      · cases frame with
        | hashing req accountId descriptor =>
          exact absurd hframe (hhashing req accountId descriptor)
        | saving req accountId nid faceCount =>
          exact absurd hframe (hsaving req accountId nid faceCount)

/-- A share is refused, or it is stored for a human that is bound to it. -/
theorem storeShare_cases (req : StoreRequest F) :
    (∃ status message, s.storeShare P req = (s, .error status message)) ∨
    ∃ accountId shareHex ts x,
      req.accountId = some accountId ∧
      ((s.recoveryShareStore.get? (shareKey req.network accountId)).any
        fun record => JsNumber.le ts record.ts) = false ∧
      s.nidToBind (s.recoveryShareStore.get? (shareKey req.network accountId)) accountId
        req.descriptor req.network ≠ "" ∧
      s.storeShare P req =
        ({ s with
          recoveryShareStore := s.recoveryShareStore.set (shareKey req.network accountId)
            { accountId
              nid := s.nidToBind (s.recoveryShareStore.get? (shareKey req.network accountId))
                accountId req.descriptor req.network
              network := req.network, shareHex, ts, x
              fails := ((s.recoveryShareStore.get? (shareKey req.network accountId)).map
                ShareRecord.fails).getD 0
              lockedUntil := ((s.recoveryShareStore.get? (shareKey req.network accountId)).map
                ShareRecord.lockedUntil).getD 0 } }, .stored) := by
  unfold storeShare
  dsimp only
  split
  · next x accountId share ts sig haccount hshare hts hsig =>
      split
      · exact .inl ⟨_, _, rfl⟩
      · split
        · exact .inl ⟨_, _, rfl⟩
        · split
          · exact .inl ⟨_, _, rfl⟩
          · next hstale =>
              split
              · exact .inl ⟨_, _, rfl⟩
              · next hnid =>
                  exact .inr ⟨accountId, share.toLower, ts, _,
                    (Option.filter_eq_some_iff.mp haccount).1, Bool.eq_false_iff.mpr hstale,
                    hnid, rfl⟩
  · exact .inl ⟨_, _, rfl⟩

/-- What a release request does to the relay before it looks at the record. -/
def admitted (s : Relay F) (req : ReleaseRequest F) (now : Int) : Relay F :=
  { s.spend req.challengeId with
    ipReleaseLog := (checkAndRecordIp s.ipReleaseLog req.ip RELEASE_IP_MAX_PER_DAY now).1 }

/-- A release request is refused before its session is spent, or after, or it is evaluated on
a record that is not locked. -/
theorem releaseShare_cases (req : ReleaseRequest F) (now : Int) :
    (∃ message, s.releaseShare cfg req now = (s, .error 400 message)) ∨
    ∃ accountId session sequence,
      req.accountId = some accountId ∧
      s.session? req.challengeId = some session ∧ session.used = false ∧
      session.type = "recovery" ∧ session.sequence = some sequence ∧
      now - session.createdAt ≤ CHALLENGE_TTL_MS ∧
      ((∃ status message,
          s.releaseShare cfg req now = (s.admitted req now, .error status message)) ∨
        ∃ record,
          s.recoveryShareStore.get? (shareKey req.network accountId) = some record ∧
          record.lockedUntil ≤ now ∧
          s.releaseShare cfg req now = evaluateRelease cfg (s.admitted req now) req
            (shareKey req.network accountId) record sequence now) := by
  unfold releaseShare
  split
  · next accountId ephPub haccount hephPub =>
      split
      · next type sequence createdAt ip used hsession =>
          obtain ⟨hheld, hfresh⟩ := Option.filter_eq_some_iff.mp hsession
          simp only [Bool.and_eq_true, Bool.not_eq_true', beq_iff_eq, decide_eq_true_eq]
            at hfresh
          refine .inr ⟨accountId, _, sequence, haccount, hheld, hfresh.1.1, hfresh.1.2, rfl,
            hfresh.2, ?_⟩
          dsimp only
          split
          · exact .inl ⟨_, _, rfl⟩
          · split
            · exact .inl ⟨_, _, rfl⟩
            · next record hrecord =>
                split
                · exact .inl ⟨_, _, rfl⟩
                · next hlocked =>
                    exact .inr ⟨record, hrecord, Int.not_lt.mp hlocked, rfl⟩
      · exact .inl ⟨_, rfl⟩
  · exact .inl ⟨_, rfl⟩

theorem evaluateRelease_cases (req : ReleaseRequest F) (key : String)
    (record : ShareRecord F) (sequence : List String) (now : Int) :
    evaluateRelease cfg s req key record sequence now = (s, .crashed) ∨
    (∃ message, evaluateRelease cfg s req key record sequence now =
      s.failRelease key record message now) ∨
    (verifyTrajectory cfg.toFixed3 sequence req.proof = .ok ∧
      (∀ d ∈ descriptorsOf req.proof, s.matchesNid req.network record.nid d = true) ∧
      evaluateRelease cfg s req key record sequence now =
        ({ s with
          recoveryShareStore := s.recoveryShareStore.set key
            { record with fails := 0, lockedUntil := 0 } },
          .released record.shareHex record.x record.ts)) := by
  unfold evaluateRelease
  split
  · exact .inl rfl
  · exact .inr (.inl ⟨_, rfl⟩)
  · next hverdict =>
      split
      · exact .inr (.inl ⟨_, rfl⟩)
      · next hface =>
          rw [Bool.not_eq_false, List.all_eq_true] at hface
          exact .inr (.inr ⟨hverdict, hface, rfl⟩)

end

/-- The attempt was looked at: it failed, threw, or brought the share out. -/
def Evaluated : RelayAnswer F → Prop
  | .denied _ | .crashed | .released _ _ _ => True
  | _ => False

/-- An evaluated attempt came with an unspent recovery challenge, in time, and found a record
that was not locked. -/
theorem releaseShare_evaluated {req : ReleaseRequest F} {now : Int}
    (h : Evaluated (s.releaseShare cfg req now).2) :
    ∃ accountId session sequence record,
      req.accountId = some accountId ∧ s.session? req.challengeId = some session ∧
      session.used = false ∧ session.type = "recovery" ∧ session.sequence = some sequence ∧
      now - session.createdAt ≤ CHALLENGE_TTL_MS ∧
      s.recoveryShareStore.get? (shareKey req.network accountId) = some record ∧
      record.lockedUntil ≤ now ∧
      s.releaseShare cfg req now = evaluateRelease cfg (s.admitted req now) req
        (shareKey req.network accountId) record sequence now := by
  obtain ⟨_, hr⟩ | ⟨accountId, session, sequence, haccount, hsession, hused, htype, hsequence,
      hfresh, ⟨_, _, hr⟩ | ⟨record, hrecord, hlocked, hr⟩⟩ := releaseShare_cases cfg s req now
  · rw [hr] at h
    cases h
  · rw [hr] at h
    cases h
  · exact ⟨accountId, session, sequence, record, haccount, hsession, hused, htype, hsequence,
      hfresh, hrecord, hlocked, hr⟩

theorem releaseShare_spends (req : ReleaseRequest F) (now : Int) :
    (∃ message, s.releaseShare cfg req now = (s, .error 400 message)) ∨
    (s.releaseShare cfg req now).1.sessions = (s.spend req.challengeId).sessions := by
  obtain ⟨message, hr⟩ | ⟨accountId, _, sequence, -, -, -, -, -, -,
      ⟨_, _, hr⟩ | ⟨record, -, -, hr⟩⟩ := releaseShare_cases cfg s req now
  · exact .inl ⟨message, hr⟩
  · exact .inr (by rw [hr]; rfl)
  · refine .inr ?_
    rw [hr]
    obtain he | ⟨_, he⟩ | ⟨-, -, he⟩ := evaluateRelease_cases cfg (s.admitted req now) req
      (shareKey req.network accountId) record sequence now <;> rw [he] <;> rfl

/-- What a release request leaves of the sessions: all of them, or those of other challenges. -/
theorem releaseShare_sessions {req : ReleaseRequest F} {now : Int} {id : String}
    {session : ChallengeSession}
    (h : (s.releaseShare cfg req now).1.sessions.get? id = some session)
    (hused : session.used = false) :
    s.sessions.get? id = some session ∧
      ((∃ message, s.releaseShare cfg req now = (s, .error 400 message)) ∨
        req.challengeId ≠ id) := by
  obtain ⟨message, hr⟩ | hspends := releaseShare_spends cfg (s := s) req now
  · rw [hr] at h
    exact ⟨h, .inl ⟨message, hr⟩⟩
  · rw [hspends] at h
    obtain ⟨hne, hold⟩ := get?_spend_of_unused req.challengeId h hused
    exact ⟨hold, .inr hne⟩

end Handlers

/-! ## One input -/

section Inputs

variable [JsNumber F] {P : Primitives F} {cfg : RelayConfig F} {s : Relay F}

/-- The answers that an input can bring. -/
def Allows : Input F → Option (RelayAnswer F) → Prop
  | _, some (.error _ _) => True
  | .challenge _ _ id left now, some (.challenge id' type expiresAt) =>
    id' = id ∧ type = (if left then "look-left" else "look-right") ∧
      expiresAt = now + CHALLENGE_TTL_MS
  | .recoveryChallenge _ id rolls now, some (.recoveryChallenge id' sequence expiresAt) =>
    id' = id ∧ sequence = drawRecoverySequence rolls ∧ expiresAt = now + CHALLENGE_TTL_MS
  | .verify _ _, none | .resume _ _ _, none | .archive _ _, none | .releaseStale _, none => True
  | .resume _ _ _, some (.attested _ _ _) | .resume _ _ _, some .crashed => True
  | .storeShare _, some .stored => True
  | .releaseShare _ _, some (.denied _) | .releaseShare _ _, some (.released _ _ _)
  | .releaseShare _ _, some .crashed => True
  | _, _ => False

/-- What an input makes of the relay, and its answer. -/
inductive Turned (s : Relay F) : Input F → Relay F × Option (RelayAnswer F) → Prop
  | kept (input : Input F) (answer : Option (RelayAnswer F)) (allowed : Allows input answer) :
      Turned s input (s, answer)
  | challenged (ip : String) (network : Network) (id : String) (left : Bool) (now : Int)
      (answer : Option (RelayAnswer F))
      (allowed : Allows (.challenge ip network id left now) answer) :
      Turned s (.challenge ip network id left now)
        (s.addSession id ⟨if left then "look-left" else "look-right", none, now, ip, false⟩ now,
          answer)
  | recoveryChallenged (ip id : String) (rolls : List Nat) (now : Int)
      (answer : Option (RelayAnswer F))
      (allowed : Allows (.recoveryChallenge ip id rolls now) answer) :
      Turned s (.recoveryChallenge ip id rolls now)
        (s.addSession id ⟨"recovery", some (drawRecoverySequence rolls), now, ip, false⟩ now,
          answer)
  /-- The challenge has expired, or a handler waits for the hash. -/
  | begun (req : VerifyRequest F) (now : Int) (challengeSessions : JsSet String)
      (handlers : List (Option (VerifyFrame F))) (answer : Option (RelayAnswer F))
      (allowed : Allows (.verify req now) answer) :
      Turned s (.verify req now) ({ s with challengeSessions, handlers }, answer)
  | ended (i : Nat) (uuid : String) (now : Int) (faceDescriptorDB : List (FaceEntry F))
      (answer : Option (RelayAnswer F)) (allowed : Allows (.resume i uuid now) answer) :
      Turned s (.resume i uuid now)
        ({ s with faceDescriptorDB, handlers := s.handlers.set i none }, answer)
  | committed (i : Nat) (uuid : String) (now : Int) (req : VerifyRequest F)
      (descriptor : List F) (frame : VerifyFrame F) :
      Turned s (.resume i uuid now)
        ({ s.committed req descriptor uuid now with handlers := s.handlers.set i (some frame) },
          none)
  | attested (i : Nat) (uuid : String) (now : Int) (req : VerifyRequest F) (accountId : Hex)
      (nid : String) (faceCount : Nat) (answer : Option (RelayAnswer F))
      (allowed : Allows (.resume i uuid now) answer)
      (frame : s.handlers[i]? = some (some (.saving req accountId nid faceCount))) :
      Turned s (.resume i uuid now)
        ({ s.attested req accountId nid now with handlers := s.handlers.set i none }, answer)
  | archived (block : Block F) (network : Network) (engineBlockStore : JsMap Hex EngineRow) :
      Turned s (.archive block network)
        ({ s with
          engineBlockStore
          pendingFaceUses :=
            if block.type = .open then s.pendingFaceUses.delete block.accountId
            else s.pendingFaceUses }, none)
  | released (now : Int) : Turned s (.releaseStale now) (s.releaseStaleFaceUses now, none)
  | stored (req : StoreRequest F) (recoveryShareStore : JsMap String (ShareRecord F))
      (answer : Option (RelayAnswer F)) (allowed : Allows (.storeShare req) answer) :
      Turned s (.storeShare req) ({ s with recoveryShareStore }, answer)
  /-- The session of a release request is spent. -/
  | spent (req : ReleaseRequest F) (now : Int) (recoveryShareStore : JsMap String (ShareRecord F))
      (answer : Option (RelayAnswer F)) (allowed : Allows (.releaseShare req now) answer) :
      Turned s (.releaseShare req now) ({ s.admitted req now with recoveryShareStore }, answer)

variable (P cfg) in
theorem handle_turned (s : Relay F) (input : Input F) : Turned s input (s.handle P cfg input) := by
  cases input with
  | challenge ip network id left now =>
    unfold handle answering challenge
    dsimp only
    split
    · exact .kept _ _ trivial
    · exact .challenged ip network id left now _ ⟨rfl, rfl, rfl⟩
  | recoveryChallenge ip id rolls now =>
    exact .recoveryChallenged ip id rolls now _ ⟨rfl, rfl, rfl⟩
  | verify req now =>
    show Turned s _ (s.verify req now)
    obtain ⟨_, hv⟩ | ⟨_, hv⟩ | ⟨_, _, _, _, _, _, _, _, hv⟩ := verify_cases s req now <;> rw [hv]
    · exact .kept _ _ trivial
    · exact .begun req now _ _ _ trivial
    · exact .begun req now _ _ _ trivial
  | resume i uuid now =>
    show Turned s _ (s.resume P cfg i uuid now)
    obtain ⟨-, hr⟩ | ⟨req, _, descriptor, -, ⟨_, _, _, -, hr⟩ | ⟨-, -, hr⟩⟩ |
        ⟨req, accountId, nid, faceCount, hframe, hr | ⟨_, _, hr⟩⟩ :=
      resume_cases P cfg s i uuid now <;> rw [hr]
    · exact .kept _ _ trivial
    · exact .ended i uuid now _ _ trivial
    · exact .committed i uuid now req descriptor _
    · exact .ended i uuid now _ _ trivial
    · exact .attested i uuid now req accountId nid faceCount _ trivial hframe
  | archive block network =>
    unfold handle archiveEngineBlock
    dsimp only
    split
    · exact .kept _ _ trivial
    · exact .archived block network _
  | releaseStale now => exact .released now
  | storeShare req =>
    show Turned s _ (answering (s.storeShare P req))
    obtain ⟨_, _, hs⟩ | ⟨_, _, _, _, _, _, _, hs⟩ := storeShare_cases P s req <;> rw [hs]
    · exact .kept _ _ trivial
    · exact .stored req _ _ trivial
  | releaseShare req now =>
    show Turned s _ (answering (s.releaseShare cfg req now))
    obtain ⟨_, hr⟩ | ⟨accountId, _, sequence, -, -, -, -, -, -,
        ⟨_, _, hr⟩ | ⟨record, -, -, hr⟩⟩ := releaseShare_cases cfg s req now <;> rw [hr]
    · exact .kept _ _ trivial
    · exact .spent req now s.recoveryShareStore _ trivial
    · obtain he | ⟨_, he⟩ | ⟨-, -, he⟩ := evaluateRelease_cases cfg (s.admitted req now) req
        (shareKey req.network accountId) record sequence now <;> rw [he]
      · exact .spent req now s.recoveryShareStore _ trivial
      · exact .spent req now _ _ trivial
      · exact .spent req now _ _ trivial

theorem handle_handlers {input : Input F} (hverify : ∀ req now, input ≠ .verify req now)
    (hresume : ∀ i uuid now, input ≠ .resume i uuid now) :
    (s.handle P cfg input).1.handlers = s.handlers := by
  have turned := handle_turned P cfg s input
  generalize s.handle P cfg input = result at turned
  cases turned with
  | begun req now => exact absurd rfl (hverify req now)
  | ended i uuid now | committed i uuid now | attested i uuid now =>
    exact absurd rfl (hresume i uuid now)
  | released now => simp only [releaseStaleFaceUses_eq]
  | _ => rfl

variable (P cfg) in
theorem handle_allows (s : Relay F) (input : Input F) :
    Allows input (s.handle P cfg input).2 := by
  have turned := handle_turned P cfg s input
  generalize s.handle P cfg input = result at turned
  cases turned <;> first | assumption | trivial

theorem handle_released {input : Input F} {shareHex : String} {x : Option Nat} {ts : F}
    (h : (s.handle P cfg input).2 = some (.released shareHex x ts)) :
    ∃ req now, input = .releaseShare req now := by
  have hallows := handle_allows P cfg s input
  rw [h] at hallows
  cases input with
  | releaseShare req now => exact ⟨req, now, rfl⟩
  | _ => exact hallows.elim

theorem handle_attested {input : Input F} {nullifier : String} {attestation : TypedAttestation}
    {pub : Hex} (h : (s.handle P cfg input).2 = some (.attested nullifier attestation pub)) :
    ∃ i uuid now req accountId nid faceCount, input = .resume i uuid now ∧
      s.handlers[i]? = some (some (.saving req accountId nid faceCount)) ∧
      (s.handle P cfg input).1 =
        { s.attested req accountId nid now with handlers := s.handlers.set i none } := by
  have hallows := handle_allows P cfg s input
  rw [h] at hallows
  cases input with
  | resume i uuid now =>
    replace h : (s.resume P cfg i uuid now).2 = _ := h
    obtain ⟨-, hr⟩ | ⟨_, _, _, -, ⟨_, _, _, -, hr⟩ | ⟨-, -, hr⟩⟩ |
        ⟨req, accountId, nid, faceCount, hframe, hr | ⟨_, _, hr⟩⟩ :=
      resume_cases P cfg s i uuid now
    · rw [hr] at h
      cases h
    · rw [hr] at h
      cases h
    · rw [hr] at h
      cases h
    · rw [hr] at h
      cases h
    · refine ⟨i, uuid, now, req, accountId, nid, faceCount, rfl, hframe, ?_⟩
      show (s.resume P cfg i uuid now).1 = _
      rw [hr]
  | _ => exact hallows.elim

theorem handle_recoveryShareStore {input : Input F}
    (hstore : ∀ req, input ≠ .storeShare req)
    (hrelease : ∀ req now, input ≠ .releaseShare req now) :
    (s.handle P cfg input).1.recoveryShareStore = s.recoveryShareStore := by
  have turned := handle_turned P cfg s input
  generalize s.handle P cfg input = result at turned
  cases turned with
  | stored req => exact absurd rfl (hstore req)
  | spent req now => exact absurd rfl (hrelease req now)
  | released now => simp only [releaseStaleFaceUses_eq]
  | _ => rfl

/-- The inputs by which slots and names come and go: a handler's turn, a block for the
archive, the timer. -/
def Settles : Input F → Prop
  | .resume _ _ _ | .archive _ _ | .releaseStale _ => True
  | _ => False

theorem handle_frame {input : Input F} (h : ¬ Settles input) :
    (s.handle P cfg input).1.pendingFaceUses = s.pendingFaceUses ∧
    (s.handle P cfg input).1.usernameRegistry = s.usernameRegistry ∧
    (s.handle P cfg input).1.faceDescriptorDB = s.faceDescriptorDB ∧
    (s.handle P cfg input).1.engineBlockStore = s.engineBlockStore := by
  have turned := handle_turned P cfg s input
  generalize s.handle P cfg input = result at turned
  cases turned with
  | ended | committed | attested | archived | released => exact absurd trivial h
  | _ => exact ⟨rfl, rfl, rfl, rfl⟩

theorem handle_engineBlockStore {input : Input F}
    (h : ∀ block network, input ≠ .archive block network) :
    (s.handle P cfg input).1.engineBlockStore = s.engineBlockStore := by
  have turned := handle_turned P cfg s input
  generalize s.handle P cfg input = result at turned
  cases turned with
  | archived block network => exact absurd rfl (h block network)
  | released now => simp only [releaseStaleFaceUses_eq]
  | _ => rfl

/-- An open block of the account is in the archive. -/
def Opened (s : Relay F) (accountId : Hex) : Prop :=
  ∃ hash row, s.engineBlockStore.get? hash = some row ∧ row.accountId = accountId ∧
    row.type = .open

/-- The archive takes an open block that it did not have. -/
def Opens (P : Primitives F) (s : Relay F) (block : Block F) : Prop :=
  verifyBlock P block = true ∧ s.engineBlockStore.has block.hash = false ∧ block.type = .open

omit [JsNumber F] in
theorem opened_of_store_eq {s' : Relay F} (h : s'.engineBlockStore = s.engineBlockStore)
    (accountId : Hex) : Opened s' accountId ↔ Opened s accountId := by
  unfold Opened
  rw [h]

omit [JsNumber F] in
theorem opened_archive (block : Block F) (network : Network) (accountId : Hex) :
    Opened (archiveEngineBlock P s block network) accountId ↔
      Opened s accountId ∨ Opens P s block ∧ block.accountId = accountId := by
  unfold archiveEngineBlock
  split
  · next hskip =>
      refine ⟨.inl, fun h => ?_⟩
      rcases h with hopened | ⟨hopens, -⟩
      · exact hopened
      · rw [hopens.1, hopens.2.1] at hskip
        cases hskip
  · next htake =>
      obtain ⟨hverify, hfresh⟩ : verifyBlock P block = true ∧
          s.engineBlockStore.has block.hash = false := by
        simpa using htake
      constructor
      · rintro ⟨hash, row, hget, haccount, htype⟩
        replace hget : (s.engineBlockStore.set block.hash
          ⟨block.hash, block.accountId, network, block.type⟩).get? hash = some row := hget
        rw [JsMap.get?_set] at hget
        split at hget
        · rw [← Option.some.inj hget] at haccount htype
          exact .inr ⟨⟨hverify, hfresh, htype⟩, haccount⟩
        · exact .inl ⟨hash, row, hget, haccount, htype⟩
      · rintro (⟨hash, row, hget, haccount, htype⟩ | ⟨hopens, haccount⟩)
        · refine ⟨hash, row, ?_, haccount, htype⟩
          show (s.engineBlockStore.set block.hash _).get? hash = some row
          rw [JsMap.get?_set, if_neg, hget]
          rintro rfl
          rw [(JsMap.has_eq_false_iff _ _).mp hfresh] at hget
          cases hget
        · exact ⟨block.hash, ⟨block.hash, block.accountId, network, block.type⟩,
            JsMap.get?_set_self _ _ _, haccount, hopens.2.2⟩

variable {input : Input F}

/-- A slot is held since before, or a handler has just attested it. -/
theorem handle_pendingFaceUses {accountId : Hex} {use : FaceUse}
    (h : (s.handle P cfg input).1.pendingFaceUses.get? accountId = some use) :
    s.pendingFaceUses.get? accountId = some use ∨
    ∃ i uuid now req nid faceCount, input = .resume i uuid now ∧
      s.handlers[i]? = some (some (.saving req accountId nid faceCount)) ∧
      use = ⟨nid, req.username, now, req.network⟩ := by
  have turned := handle_turned P cfg s input
  generalize s.handle P cfg input = result at turned h
  cases turned with
  | attested i uuid now req attestedId nid faceCount answer allowed frame =>
    replace h : (s.pendingFaceUses.set attestedId _).get? accountId = _ := h
    rw [JsMap.get?_set] at h
    split at h
    · next heq =>
        rw [heq] at frame
        exact .inr ⟨i, uuid, now, req, nid, faceCount, rfl, frame, (Option.some.inj h).symm⟩
    · exact .inl h
  | archived block network =>
    replace h : (if block.type = .open then s.pendingFaceUses.delete block.accountId
        else s.pendingFaceUses).get? accountId = _ := h
    split at h
    · exact .inl (JsMap.get?_of_get?_delete h).2
    · exact .inl h
  | released now => exact .inl (get?_pendingFaceUses_releaseStale.mp h).1
  | _ => exact .inl h

/-- A name is registered since before, or a handler has just attested it. -/
theorem handle_usernameRegistry {u : String} {claim : UsernameClaim}
    (h : (s.handle P cfg input).1.usernameRegistry.get? u = some claim) :
    s.usernameRegistry.get? u = some claim ∨
    ∃ i uuid now req faceCount, input = .resume i uuid now ∧
      s.handlers[i]? = some (some (.saving req claim.accountId claim.nid faceCount)) ∧
      req.username = u := by
  have turned := handle_turned P cfg s input
  generalize s.handle P cfg input = result at turned h
  cases turned with
  | attested i uuid now req accountId nid faceCount answer allowed frame =>
    replace h : (if req.username = "" then s.usernameRegistry
        else s.usernameRegistry.set req.username ⟨accountId, nid⟩).get? u = _ := h
    split at h
    · exact .inl h
    · rw [JsMap.get?_set] at h
      split at h
      · next heq =>
          rw [← Option.some.inj h]
          exact .inr ⟨i, uuid, now, req, faceCount, rfl, frame, heq⟩
      · exact .inl h
  | released now => exact .inl (get?_usernameRegistry_releaseStale.mp h).1
  | _ => exact .inl h

/-- A session that is not spent was there before, or it has just been drawn. -/
theorem handle_sessions {id : String} {session : ChallengeSession}
    (h : (s.handle P cfg input).1.sessions.get? id = some session)
    (hused : session.used = false) :
    s.sessions.get? id = some session ∨
    (∃ ip network left now, input = .challenge ip network id left now ∧
      session = ⟨if left then "look-left" else "look-right", none, now, ip, false⟩) ∨
    ∃ ip rolls now, input = .recoveryChallenge ip id rolls now ∧
      session = ⟨"recovery", some (drawRecoverySequence rolls), now, ip, false⟩ := by
  have turned := handle_turned P cfg s input
  generalize s.handle P cfg input = result at turned h
  cases turned with
  | challenged ip network drawn left now =>
    replace h : (s.sessions.set drawn _).get? id = _ := h
    rw [JsMap.get?_set] at h
    split at h
    · next heq =>
        rw [heq]
        exact .inr (.inl ⟨ip, network, left, now, rfl, (Option.some.inj h).symm⟩)
    · exact .inl h
  | recoveryChallenged ip drawn rolls now =>
    replace h : (s.sessions.set drawn _).get? id = _ := h
    rw [JsMap.get?_set] at h
    split at h
    · next heq =>
        rw [heq]
        exact .inr (.inr ⟨ip, rolls, now, rfl, (Option.some.inj h).symm⟩)
    · exact .inl h
  | committed i uuid now req => exact .inl (get?_spend_of_unused req.challengeId h hused).2
  | spent req now => exact .inl (get?_spend_of_unused req.challengeId h hused).2
  | released now =>
    rw [releaseStaleFaceUses_eq] at h
    exact .inl h
  | _ => exact .inl h

/-- A session stays, of its kind, and once it is spent it stays spent. -/
theorem handle_session_kept (hfresh : s.DrawsFresh input) {id : String}
    {session : ChallengeSession} (h : s.sessions.get? id = some session) :
    ∃ session', (s.handle P cfg input).1.sessions.get? id = some session' ∧
      session'.type = session.type ∧ (session.used = true → session'.used = true) := by
  have hset : ∀ {drawn new}, s.sessions.get? drawn = none →
      (s.sessions.set drawn new).get? id = some session := by
    intro drawn new hnone
    have hne : drawn ≠ id := by
      intro heq
      rw [heq, h] at hnone
      cases hnone
    rw [JsMap.get?_set_ne _ _ hne, h]
  have turned := handle_turned P cfg s input
  generalize s.handle P cfg input = result at turned
  cases turned with
  | challenged | recoveryChallenged => exact ⟨session, hset hfresh, rfl, fun hu => hu⟩
  | committed i uuid now req => exact spend_kept h req.challengeId
  | spent req now => exact spend_kept h req.challengeId
  | released now =>
    rw [releaseStaleFaceUses_eq]
    exact ⟨session, h, rfl, fun hu => hu⟩
  | _ => exact ⟨session, h, rfl, fun hu => hu⟩

end Inputs

/-! ## A relay with its past -/

/-- One input, with the state that it came in and its answer. -/
structure Event (F : Type) where
  before : Relay F
  input : Input F
  answer : Option (RelayAnswer F)

/-- The verify handler whose turn it was. -/
def Event.turn (e : Event F) : Option (VerifyFrame F) :=
  match e.input with
  | .resume i _ _ => e.before.handlers[i]?.join
  | _ => none

/-- The attestation that was given out: its request, its account and its human. -/
def Event.attestation? (e : Event F) : Option (VerifyRequest F × Hex × String) :=
  match e.answer, e.turn with
  | some (.attested _ _ _), some (.saving req accountId nid _) => some (req, accountId, nid)
  | _, _ => none

theorem attestation?_eq_some [JsNumber F] {P : Primitives F} {cfg : RelayConfig F}
    {s : Relay F} {input : Input F} {req : VerifyRequest F} {accountId : Hex} {nid : String}
    (h : (Event.mk s input (s.handle P cfg input).2).attestation? = some (req, accountId, nid)) :
    ∃ i uuid now faceCount, input = .resume i uuid now ∧
      s.handlers[i]? = some (some (.saving req accountId nid faceCount)) ∧
      (s.handle P cfg input).1 =
        { s.attested req accountId nid now with handlers := s.handlers.set i none } := by
  unfold Event.attestation? at h
  dsimp only at h
  split at h
  · next nullifier attestation pub req' accountId' nid' faceCount hanswer hturn =>
      obtain ⟨rfl, rfl, rfl⟩ : req' = req ∧ accountId' = accountId ∧ nid' = nid := by
        simpa using h
      obtain ⟨i, uuid, now, req, accountId, nid, faceCount', rfl, hframe, hafter⟩ :=
        handle_attested hanswer
      simp only [Event.turn, hframe, Option.join_some, Option.some.injEq,
        VerifyFrame.saving.injEq] at hturn
      obtain ⟨rfl, rfl, rfl, rfl⟩ := hturn
      exact ⟨i, uuid, now, _, rfl, hframe, hafter⟩
  · cases h

structure History (F : Type) where
  relay : Relay F
  events : List (Event F)

namespace History

def new : History F := ⟨Relay.new, []⟩

variable [JsNumber F] (P : Primitives F) (cfg : RelayConfig F)

def step (w : History F) (input : Input F) : History F :=
  let r := w.relay.handle P cfg input
  ⟨r.1, w.events ++ [⟨w.relay, input, r.2⟩]⟩

end History

end NeuronWeb.Relay
