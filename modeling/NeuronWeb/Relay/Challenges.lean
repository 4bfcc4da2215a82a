/-
  Relay/Challenges: what one challenge can bring.

  Challenges of the two kinds are told apart on every path (`kindsApart`): one that was drawn
  for recovery brings no attestation, one for an enrolment brings no share. An enrolment
  challenge is looked at before the hash of the descriptor is awaited and spent after it, with
  no second look (`spent_once`, `two_attestations`).
-/
import NeuronWeb.Relay.Sample
import NeuronWeb.Relay.Turns

set_option autoImplicit false

namespace NeuronWeb.Relay

variable {F : Type}

/-! ## What a challenge has brought -/

/-- The challenge that a verify handler was called with. -/
def challengeOf : VerifyFrame F → String
  | .hashing req _ _ | .saving req _ _ _ => req.challengeId

/-- The challenge that an answer is given for. -/
def Event.challengeId? (e : Event F) : Option String :=
  match e.input with
  | .releaseShare req _ => some req.challengeId
  | _ => e.turn.map challengeOf

/-- An attestation or a share. -/
def isYield : Option (RelayAnswer F) → Bool
  | some (.attested _ _ _) | some (.released _ _ _) => true
  | _ => false

/-- An attestation or a share is given out for the challenge. -/
def Event.yields (id : String) (e : Event F) : Bool :=
  isYield e.answer && e.challengeId? == some id

/-- No challenge has brought two attestations, two shares, or one of each. -/
def SpentOnce (w : History F) : Prop :=
  ∀ id, w.events.countP (Event.yields id) ≤ 1

/-- Nothing is attested for a challenge drawn for recovery, and no share is released for one
drawn for an enrolment. -/
structure KindsApart (w : History F) : Prop where
  attested : ∀ e ∈ w.events, ∀ id nullifier attestation pub, e.challengeId? = some id →
    e.answer = some (.attested nullifier attestation pub) →
    ∀ draw ∈ w.events, ∀ sequence expiresAt,
      draw.answer ≠ some (.recoveryChallenge id sequence expiresAt)
  released : ∀ e ∈ w.events, ∀ id shareHex x ts, e.challengeId? = some id →
    e.answer = some (.released shareHex x ts) →
    ∀ draw ∈ w.events, ∀ type expiresAt,
      draw.answer ≠ some (.challenge id type expiresAt)

section Conditions

variable [JsNumber F] (P : Primitives F) (cfg : RelayConfig F)

/-- A handler that takes its slot finds its challenge still unused. -/
def StillUnused (s : Relay F) : Input F → Prop
  | .resume i uuid now => ∀ req accountId descriptor frame session,
      s.handlers[i]? = some (some (.hashing req accountId descriptor)) →
      (commit P cfg s req accountId descriptor uuid now).2 = .ok frame →
      s.sessions.get? req.challengeId = some session → session.used = false
  | _ => True

end Conditions

/-! ## The two kinds -/

/-- The relay drew the challenge, for recovery or for an enrolment. -/
def Drawn (s : Relay F) (id : String) (recovery : Bool) : Prop :=
  ∃ session, s.sessions.get? id = some session ∧
    decide (session.type = "recovery") = recovery

/-- The challenge that an answer shows or is given for, and whether it is for recovery. -/
def Event.kind? (e : Event F) : Option (String × Bool) :=
  match e.answer with
  | some (.challenge id _ _) => some (id, false)
  | some (.recoveryChallenge id _ _) => some (id, true)
  | some (.attested _ _ _) => e.challengeId?.map fun id => (id, false)
  | some (.released _ _ _) => e.challengeId?.map fun id => (id, true)
  | _ => none

/-- Every answer so far and every handler agrees with the kind of its challenge. -/
structure Sorted (w : History F) : Prop where
  frames : ∀ (i : Nat) (frame : VerifyFrame F), w.relay.handlers[i]? = some (some frame) →
    Drawn w.relay (challengeOf frame) false
  answers : ∀ e ∈ w.events, ∀ id recovery, e.kind? = some (id, recovery) →
    Drawn w.relay id recovery

theorem Drawn.unique {s : Relay F} {id : String} (h : Drawn s id true) : ¬ Drawn s id false := by
  obtain ⟨session, hsession, hkind⟩ := h
  rintro ⟨session', hsession', hkind'⟩
  cases hsession.symm.trans hsession'
  rw [hkind] at hkind'
  cases hkind'

theorem Sorted.kindsApart {w : History F} (hw : Sorted w) : KindsApart w where
  attested e he id nullifier attestation pub hid hanswer draw hdraw sequence expiresAt h := by
    have hfalse : Drawn w.relay id false := hw.answers e he id false (by
      simp only [Event.kind?, hanswer, hid, Option.map_some])
    have htrue : Drawn w.relay id true := hw.answers draw hdraw id true (by
      simp only [Event.kind?, h])
    exact htrue.unique hfalse
  released e he id shareHex x ts hid hanswer draw hdraw type expiresAt h := by
    have htrue : Drawn w.relay id true := hw.answers e he id true (by
      simp only [Event.kind?, hanswer, hid, Option.map_some])
    have hfalse : Drawn w.relay id false := hw.answers draw hdraw id false (by
      simp only [Event.kind?, h])
    exact htrue.unique hfalse

theorem sorted_new : Sorted (History.new : History F) where
  frames i frame h := by cases h
  answers e he := by cases he

section Step

variable [JsNumber F] {P : Primitives F} {cfg : RelayConfig F} {w : History F}

variable {input : Input F}

theorem Drawn.step {s : Relay F} (hfresh : s.DrawsFresh input) {id : String}
    {recovery : Bool} (h : Drawn s id recovery) : Drawn (s.handle P cfg input).1 id recovery := by
  obtain ⟨session, hsession, hkind⟩ := h
  obtain ⟨session', hsession', htype, -⟩ := handle_session_kept hfresh hsession
  exact ⟨session', hsession', by rw [htype, hkind]⟩

/-- A frame after an input was there before, or it is of the challenge of one that was, or
its challenge has just been checked. -/
theorem handle_frames {s : Relay F} {i : Nat} {frame : VerifyFrame F}
    (h : (s.handle P cfg input).1.handlers[i]? = some (some frame)) :
    (∃ (j : Nat) (before : VerifyFrame F), s.handlers[j]? = some (some before) ∧
      challengeOf before = challengeOf frame) ∨
    Drawn s (challengeOf frame) false := by
  -- what is left of the frames when one of them is replaced
  have hset : ∀ {j : Nat} {new : Option (VerifyFrame F)},
      (s.handlers.set j new)[i]? = some (some frame) →
        s.handlers[i]? = some (some frame) ∨ new = some frame := by
    intro j new hget
    rw [List.getElem?_set] at hget
    split at hget
    · split at hget
      · exact .inr (Option.some.inj hget)
      · cases hget
    · exact .inl hget
  by_cases hverify : ∃ req now, input = .verify req now
  · obtain ⟨req, now, rfl⟩ := hverify
    replace h : (s.verify req now).1.handlers[i]? = _ := h
    obtain ⟨_, hv⟩ | ⟨_, hv⟩ | ⟨_, session, _, hsession, htype, -, -, -, hv⟩ :=
      verify_cases s req now <;> rw [hv] at h
    · exact .inl ⟨i, frame, h, rfl⟩
    · exact .inl ⟨i, frame, h, rfl⟩
    · rcases List.mem_append.mp (List.mem_of_getElem? h) with hold | hnew
      · obtain ⟨j, hj⟩ := List.getElem?_of_mem hold
        exact .inl ⟨j, frame, hj, rfl⟩
      · rw [Option.some.inj (List.mem_singleton.mp hnew)]
        exact .inr ⟨session, (session?_eq_some hsession).2, decide_eq_false htype⟩
  · by_cases hresume : ∃ j uuid now, input = .resume j uuid now
    · obtain ⟨j, uuid, now, rfl⟩ := hresume
      replace h : (s.resume P cfg j uuid now).1.handlers[i]? = _ := h
      obtain ⟨-, hr⟩ | ⟨req, accountId, descriptor, hframe, ⟨_, _, _, -, hr⟩ | ⟨-, -, hr⟩⟩ |
          ⟨_, _, _, _, -, hr | ⟨_, _, hr⟩⟩ := resume_cases P cfg s j uuid now <;> rw [hr] at h
      · exact .inl ⟨i, frame, h, rfl⟩
      · rcases hset h with hold | hnew
        · exact .inl ⟨i, frame, hold, rfl⟩
        · cases hnew
      · rcases hset h with hold | hnew
        · exact .inl ⟨i, frame, hold, rfl⟩
        · rw [← Option.some.inj hnew]
          exact .inl ⟨j, .hashing req accountId descriptor, hframe, rfl⟩
      · rcases hset h with hold | hnew
        · exact .inl ⟨i, frame, hold, rfl⟩
        · cases hnew
      · rcases hset h with hold | hnew
        · exact .inl ⟨i, frame, hold, rfl⟩
        · cases hnew
    · rw [handle_handlers (fun req now heq => hverify ⟨req, now, heq⟩)
        (fun j uuid now heq => hresume ⟨j, uuid, now, heq⟩)] at h
      exact .inl ⟨i, frame, h, rfl⟩

/-- The answer to an input agrees with the kind of its challenge. -/
theorem Sorted.answer (hw : Sorted w) (hfresh : w.relay.DrawsFresh input)
    {id : String} {recovery : Bool}
    (h : (Event.mk w.relay input (w.relay.handle P cfg input).2).kind? = some (id, recovery)) :
    Drawn (w.relay.handle P cfg input).1 id recovery := by
  cases hanswer : (w.relay.handle P cfg input).2 with
  | none => rw [Event.kind?, hanswer] at h; cases h
  | some answer =>
    have hallows := handle_allows P cfg w.relay input
    rw [hanswer] at h hallows
    cases answer with
    | attested nullifier attestation pub =>
      obtain ⟨i, uuid, now, req, accountId, nid, faceCount, rfl, hframe, -⟩ :=
        handle_attested hanswer
      simp only [Event.kind?, Event.challengeId?, Event.turn, hframe, Option.join_some,
        Option.map_some, Option.some.injEq, Prod.mk.injEq] at h
      obtain ⟨rfl, rfl⟩ := h
      exact (hw.frames i _ hframe).step hfresh
    | released shareHex x ts =>
      obtain ⟨req, now, rfl⟩ := handle_released hanswer
      cases h
      have hevaluated : Evaluated (w.relay.releaseShare cfg req now).2 := by
        rw [Option.some.inj hanswer]
        trivial
      obtain ⟨_, session, _, _, -, hsession, -, htype, -⟩ :=
        releaseShare_evaluated cfg hevaluated
      have hdrawn : Drawn w.relay req.challengeId true :=
        ⟨session, (session?_eq_some hsession).2, decide_eq_true htype⟩
      exact hdrawn.step hfresh
    | challenge drawn type expiresAt =>
      cases h
      cases input with
      | challenge ip network id' left now =>
        obtain ⟨rfl, -⟩ := hallows
        unfold handle answering challenge at hanswer ⊢
        dsimp only at hanswer ⊢
        split at hanswer
        · cases hanswer
        · next hlimit =>
            rw [if_neg hlimit]
            exact ⟨_, JsMap.get?_set_self _ _ _, by cases left <;> rfl⟩
      | _ => exact hallows.elim
    | recoveryChallenge drawn sequence expiresAt =>
      cases h
      cases input with
      | recoveryChallenge ip id' rolls now =>
        obtain ⟨rfl, -⟩ := hallows
        exact ⟨_, JsMap.get?_set_self _ _ _, rfl⟩
      | _ => exact hallows.elim
    | _ => cases h

theorem Sorted.step (hw : Sorted w) (hfresh : w.relay.DrawsFresh input) :
    Sorted (w.step P cfg input) where
  frames i frame h := by
    obtain ⟨j, before, hbefore, hsame⟩ | hdrawn := handle_frames h
    · rw [← hsame]
      exact (hw.frames j before hbefore).step hfresh
    · exact hdrawn.step hfresh
  answers e he id recovery hkind := by
    rcases List.mem_append.mp he with he | he
    · exact (hw.answers e he id recovery hkind).step hfresh
    · rw [List.mem_singleton.mp he] at hkind
      exact hw.answer hfresh hkind

/-! ## At most once -/

/-- A handler that has taken its slot with this challenge and has not attested yet. -/
def savingFor (id : String) : Option (VerifyFrame F) → Bool
  | some (.saving req _ _ _) => req.challengeId == id
  | _ => false

/-- `1` for a challenge that has been used. -/
def spentCount (s : Relay F) (id : String) : Nat :=
  match s.sessions.get? id with
  | some session => if session.used then 1 else 0
  | none => 0

/-- What a challenge has brought, or is about to, is covered by its being used. -/
structure Single (w : History F) : Prop where
  sorted : Sorted w
  once : ∀ id, w.events.countP (Event.yields id) + w.relay.handlers.countP (savingFor id) ≤
    spentCount w.relay id

omit [JsNumber F] in
theorem spentCount_le_one (s : Relay F) (id : String) : spentCount s id ≤ 1 := by
  unfold spentCount
  split
  · split <;> omega
  · omega

theorem spentCount_mono {s : Relay F} {input : Input F} (hfresh : s.DrawsFresh input)
    (id : String) : spentCount s id ≤ spentCount (s.handle P cfg input).1 id := by
  unfold spentCount
  cases hsession : s.sessions.get? id with
  | none => exact Nat.zero_le _
  | some session =>
    obtain ⟨session', hsession', -, hused⟩ :
        ∃ session', (s.handle P cfg input).1.sessions.get? id = some session' ∧
          session'.type = session.type ∧ (session.used = true → session'.used = true) :=
      handle_session_kept hfresh hsession
    rw [hsession']
    dsimp only
    split
    · next h => rw [if_pos (hused h)]
    · exact Nat.zero_le _

section

omit [JsNumber F]

theorem Single.spentOnce (hw : Single w) : SpentOnce w := by
  intro id
  have honce := hw.once id
  have hone := spentCount_le_one w.relay id
  omega

theorem Single.nothing_of_unused (hw : Single w) {id : String} {session : ChallengeSession}
    (hsession : w.relay.sessions.get? id = some session) (hused : session.used = false) :
    w.events.countP (Event.yields id) + w.relay.handlers.countP (savingFor id) = 0 := by
  have honce := hw.once id
  rw [spentCount, hsession] at honce
  dsimp only at honce
  rw [hused] at honce
  exact Nat.le_zero.mp honce

theorem spentCount_spend {s : Relay F} {id : String} {session : ChallengeSession}
    (h : s.sessions.get? id = some session) : spentCount (s.spend id) id = 1 := by
  rw [spentCount, get?_spend, if_pos rfl, h]
  rfl

end

/-- The turn of a verify handler. -/
theorem Single.once_resume (hw : Single w) {i : Nat} {uuid : String} {now : Int}
    (hunused : StillUnused P cfg w.relay (.resume i uuid now)) (id : String) :
    (w.step P cfg (.resume i uuid now)).events.countP (Event.yields id) +
      (w.step P cfg (.resume i uuid now)).relay.handlers.countP (savingFor id) ≤
    spentCount (w.step P cfg (.resume i uuid now)).relay id := by
  have honce := hw.once id
  have hmono : spentCount w.relay id ≤
      spentCount (w.relay.handle P cfg (.resume i uuid now)).1 id :=
    spentCount_mono (show w.relay.DrawsFresh (.resume i uuid now) from trivial) id
  show (w.events ++ [Event.mk w.relay (.resume i uuid now)
      (w.relay.resume P cfg i uuid now).2]).countP (Event.yields id) +
    (w.relay.resume P cfg i uuid now).1.handlers.countP (savingFor id) ≤
    spentCount (w.relay.resume P cfg i uuid now).1 id
  replace hmono : spentCount w.relay id ≤ spentCount (w.relay.resume P cfg i uuid now).1 id :=
    hmono
  rw [List.countP_append, List.countP_singleton]
  obtain ⟨-, hr⟩ | ⟨req, accountId, descriptor, hframe,
      ⟨db, status, message, -, hr⟩ | ⟨-, hcommit, hr⟩⟩ |
      ⟨req, accountId, nid, faceCount, hframe, hr | ⟨nullifier, attestation, hr⟩⟩ :=
    resume_cases P cfg w.relay i uuid now
  · rw [hr]
    exact honce
  · have hanswer : (w.relay.resume P cfg i uuid now).2 = some (.error status message) := by
      rw [hr]
    have hhandlers : (w.relay.resume P cfg i uuid now).1.handlers =
        w.relay.handlers.set i none := by rw [hr]
    have hset := countP_set_of_get hframe (savingFor id) none
    rw [hanswer, hhandlers]
    simp only [savingFor, Event.yields, isYield, Bool.false_and, Bool.false_eq_true, if_false]
      at hset ⊢
    omega
  · have hanswer : (w.relay.resume P cfg i uuid now).2 = none := by rw [hr]
    have hhandlers : (w.relay.resume P cfg i uuid now).1.handlers =
        w.relay.handlers.set i (some (.saving req accountId
          (w.relay.nidFor descriptor req.network uuid)
          (w.relay.faceCount descriptor req.network))) := by rw [hr]
    have hset := countP_set_of_get hframe (savingFor id) (some (.saving req accountId
      (w.relay.nidFor descriptor req.network uuid)
      (w.relay.faceCount descriptor req.network)))
    rw [hanswer, hhandlers]
    simp only [savingFor, Event.yields, isYield, Bool.false_and, Bool.false_eq_true, if_false,
      beq_iff_eq] at hset ⊢
    by_cases heq : req.challengeId = id
    · -- the challenge was unused, so the slot taken now is all that it has brought
      obtain ⟨session, hsession, -⟩ := hw.sorted.frames i _ hframe
      have hfree := hunused req accountId descriptor _ session hframe hcommit hsession
      replace hsession : w.relay.sessions.get? req.challengeId = some session := hsession
      have hnothing := hw.nothing_of_unused hsession hfree
      have hspent : spentCount (w.relay.resume P cfg i uuid now).1 id = 1 := by
        rw [hr, ← heq]
        exact spentCount_spend hsession
      rw [heq] at hnothing
      rw [if_pos heq] at hset
      omega
    · rw [if_neg heq] at hset
      omega
  · have hanswer : (w.relay.resume P cfg i uuid now).2 = some .crashed := by rw [hr]
    have hhandlers : (w.relay.resume P cfg i uuid now).1.handlers =
        w.relay.handlers.set i none := by rw [hr]
    have hset := countP_set_of_get hframe (savingFor id) none
    rw [hanswer, hhandlers]
    simp only [savingFor, Event.yields, isYield, Bool.false_and, Bool.false_eq_true, if_false]
      at hset ⊢
    omega
  · have hanswer : (w.relay.resume P cfg i uuid now).2 =
        some (.attested nullifier attestation cfg.attesterPub) := by rw [hr]
    have hhandlers : (w.relay.resume P cfg i uuid now).1.handlers =
        w.relay.handlers.set i none := by rw [hr]
    have hset := countP_set_of_get hframe (savingFor id) none
    rw [hanswer, hhandlers]
    simp only [savingFor, Event.yields, isYield, Bool.true_and, Event.challengeId?, Event.turn,
      hframe, Option.join_some, Option.map_some, challengeOf, Bool.false_eq_true, if_false,
      beq_iff_eq, Option.some.injEq] at hset ⊢
    omega

/-- A release request. -/
theorem Single.once_releaseShare (hw : Single w) (req : ReleaseRequest F) (now : Int)
    (id : String) :
    (w.step P cfg (.releaseShare req now)).events.countP (Event.yields id) +
      (w.step P cfg (.releaseShare req now)).relay.handlers.countP (savingFor id) ≤
    spentCount (w.step P cfg (.releaseShare req now)).relay id := by
  have honce := hw.once id
  have hmono : spentCount w.relay id ≤
      spentCount (w.relay.handle P cfg (.releaseShare req now)).1 id :=
    spentCount_mono (show w.relay.DrawsFresh (.releaseShare req now) from trivial) id
  have hhandlers : (w.relay.handle P cfg (.releaseShare req now)).1.handlers =
      w.relay.handlers :=
    handle_handlers (fun _ _ h => by cases h) (fun _ _ _ h => by cases h)
  replace hmono : spentCount w.relay id ≤
    spentCount (w.relay.releaseShare cfg req now).1 id := hmono
  replace hhandlers : (w.relay.releaseShare cfg req now).1.handlers = w.relay.handlers :=
    hhandlers
  show (w.events ++ [Event.mk w.relay (.releaseShare req now)
      (some (w.relay.releaseShare cfg req now).2)]).countP (Event.yields id) +
    (w.relay.releaseShare cfg req now).1.handlers.countP (savingFor id) ≤
    spentCount (w.relay.releaseShare cfg req now).1 id
  rw [List.countP_append, List.countP_singleton, hhandlers]
  split
  · next hyields =>
      -- the session was unused, so the share is all that the challenge has brought
      simp only [Event.yields, Event.challengeId?, Bool.and_eq_true, beq_iff_eq,
        Option.some.injEq] at hyields
      obtain ⟨hyield, heq⟩ := hyields
      have hevaluated : Evaluated (w.relay.releaseShare cfg req now).2 := by
        cases hanswer : (w.relay.releaseShare cfg req now).2 with
        | released shareHex x ts => trivial
        | attested nullifier attestation pub =>
          have hallows := handle_allows P cfg w.relay (.releaseShare req now)
          replace hallows : Allows (.releaseShare req now)
            (some (w.relay.releaseShare cfg req now).2) := hallows
          rw [hanswer] at hallows
          exact hallows.elim
        | _ => rw [hanswer] at hyield; cases hyield
      obtain ⟨_, session, _, _, -, hsession, hused, -⟩ := releaseShare_evaluated cfg hevaluated
      replace hsession := (session?_eq_some hsession).2
      have hnothing := hw.nothing_of_unused hsession hused
      have hspent : spentCount (w.relay.releaseShare cfg req now).1 id = 1 := by
        obtain ⟨_, hr⟩ | hspends := releaseShare_spends cfg (s := w.relay) req now
        · rw [hr] at hevaluated
          cases hevaluated
        · rw [spentCount, hspends, ← heq]
          exact spentCount_spend hsession
      rw [heq] at hnothing
      omega
  · omega

/-- Any other input brings nothing, and leaves the frames of handlers that save alone. -/
theorem Single.once_quiet (hw : Single w) {input : Input F}
    (hfresh : w.relay.DrawsFresh input) (hresume : ∀ i uuid now, input ≠ .resume i uuid now)
    (hrelease : ∀ req now, input ≠ .releaseShare req now) (id : String) :
    (w.step P cfg input).events.countP (Event.yields id) +
      (w.step P cfg input).relay.handlers.countP (savingFor id) ≤
    spentCount (w.step P cfg input).relay id := by
  have honce := hw.once id
  have hmono : spentCount w.relay id ≤ spentCount (w.relay.handle P cfg input).1 id :=
    spentCount_mono hfresh id
  have hhandlers : (w.relay.handle P cfg input).1.handlers.countP (savingFor id) =
      w.relay.handlers.countP (savingFor id) := by
    by_cases hverify : ∃ req now, input = .verify req now
    · obtain ⟨req, now, rfl⟩ := hverify
      show (w.relay.verify req now).1.handlers.countP _ = _
      obtain ⟨_, hv⟩ | ⟨_, hv⟩ | ⟨_, _, _, -, -, -, -, -, hv⟩ := verify_cases w.relay req now
      · rw [hv]
      · rw [hv]
      · rw [hv]
        dsimp only
        rw [List.countP_append, List.countP_singleton]
        rfl
    · rw [handle_handlers (fun req now heq => hverify ⟨req, now, heq⟩) hresume]
  have hquiet : Event.yields id (Event.mk w.relay input (w.relay.handle P cfg input).2) =
      false := by
    unfold Event.yields
    cases hanswer : (w.relay.handle P cfg input).2 with
    | none => rfl
    | some answer =>
      cases answer with
      | attested nullifier attestation pub =>
        obtain ⟨i, uuid, now, _, _, _, _, hinput, -⟩ := handle_attested hanswer
        exact absurd hinput (hresume i uuid now)
      | released shareHex x ts =>
        obtain ⟨req, now, hinput⟩ := handle_released hanswer
        exact absurd hinput (hrelease req now)
      | _ => rfl
  show (w.events ++ [_]).countP (Event.yields id) + _ ≤ _
  rw [List.countP_append, List.countP_singleton, hquiet, if_neg Bool.false_ne_true]
  show _ + (w.relay.handle P cfg input).1.handlers.countP (savingFor id) ≤
    spentCount (w.relay.handle P cfg input).1 id
  omega

theorem Single.step (hw : Single w) {input : Input F} (hfresh : w.relay.DrawsFresh input)
    (hunused : StillUnused P cfg w.relay input) : Single (w.step P cfg input) where
  sorted := hw.sorted.step hfresh
  once id := by
    by_cases hresume : ∃ i uuid now, input = .resume i uuid now
    · obtain ⟨i, uuid, now, rfl⟩ := hresume
      exact hw.once_resume hunused id
    · by_cases hrelease : ∃ req now, input = .releaseShare req now
      · obtain ⟨req, now, rfl⟩ := hrelease
        exact hw.once_releaseShare req now id
      · exact hw.once_quiet hfresh (fun i uuid now heq => hresume ⟨i, uuid, now, heq⟩)
          (fun req now heq => hrelease ⟨req, now, heq⟩) id

end Step

section Runs

variable [JsNumber F] (P : Primitives F) (cfg : RelayConfig F)

/-- The two kinds of challenges stay apart in every run, and where no handler takes a slot for
a challenge that is used, each brings one attestation or one share at most. -/
theorem spent_once (inputs : List (Input F))
    (hfresh : Run.StepsMeet (History.step P cfg) (fun w input => w.relay.DrawsFresh input)
      History.new inputs) :
    Run.Always (History.step P cfg) KindsApart History.new inputs ∧
    (Run.StepsMeet (History.step P cfg) (fun w input => StillUnused P cfg w.relay input)
        History.new inputs →
      Run.Always (History.step P cfg) SpentOnce History.new inputs) := by
  constructor
  · exact Run.always_of_invariant (I := Sorted) (fun w input hw h => hw.step h)
      (fun w hw => hw.kindsApart) sorted_new hfresh
  · intro hunused
    have hboth : Run.StepsMeet (History.step P cfg)
        (fun w input => w.relay.DrawsFresh input ∧ StillUnused P cfg w.relay input)
        History.new inputs := hfresh.and hunused
    have hnew : Single (History.new : History F) := ⟨sorted_new, fun id => Nat.le_refl 0⟩
    exact Run.always_of_invariant (I := Single) (fun w input hw h => hw.step h.1 h.2)
      (fun w hw => hw.spentOnce) hnew hboth

/-- Whether the challenge of a handler that waits for its hash is unused. -/
def findsUnused (s : Relay F) (i : Nat) : Bool :=
  match s.handlers[i]? with
  | some (some (.hashing req _ _)) =>
    (s.sessions.get? req.challengeId).all fun session => !session.used
  | _ => true

theorem stillUnused_of_findsUnused {s : Relay F} {i : Nat} (h : s.findsUnused i = true)
    (uuid : String) (now : Int) : StillUnused P cfg s (.resume i uuid now) := by
  intro req accountId descriptor frame session hframe _ hsession
  simp only [findsUnused, hframe, hsession, Option.all_some, Bool.not_eq_true'] at h
  exact h

end Runs

section Samples

open NeuronWeb.Sample (relayConfig enrol)

/-- One enrolment, to its attestation. -/
def anEnrolment : List (Input Rat) :=
  [.challenge "127.0.0.1" .testnet "c" true 0, .verify (enrol .testnet "02a" "ann" "c" 0) 1,
    .resume 0 "n" 2, .resume 0 "" 3]

theorem spent_once_anEnrolment :
    Run.Always (History.step Sample.primitives relayConfig) SpentOnce History.new anEnrolment :=
  (spent_once Sample.primitives relayConfig anEnrolment
    ⟨rfl, trivial, trivial, trivial, trivial⟩).2
    ⟨trivial, trivial, stillUnused_of_findsUnused _ _ (by decide +kernel) _ _,
      stillUnused_of_findsUnused _ _ (by decide +kernel) _ _, trivial⟩

/-- Two requests with one challenge that wait for their hashes together. -/
def together : List (Input Rat) :=
  [.challenge "127.0.0.1" .testnet "c" true 0, .verify (enrol .testnet "02a" "ann" "c" 0) 1,
    .verify (enrol .testnet "02b" "ann" "c" 0) 1, .resume 0 "n" 2, .resume 1 "m" 2,
    .resume 0 "" 3, .resume 1 "" 3]

/-- Both are attested. -/
theorem two_attestations :
    Run.StepsMeet (History.step Sample.primitives relayConfig)
      (fun w input => w.relay.DrawsFresh input) History.new together ∧
    ¬ SpentOnce (Run.final (History.step Sample.primitives relayConfig) History.new together) := by
  refine ⟨⟨rfl, trivial, trivial, trivial, trivial, trivial, trivial, trivial⟩, ?_⟩
  intro h
  have htwo : (Run.final (History.step Sample.primitives relayConfig) History.new
      together).events.countP (Event.yields "c") = 2 := by decide +kernel
  have hone := h "c"
  omega

end Samples

end NeuronWeb.Relay
