/-
  Relay/RecoveryGate: a recovery share leaves the relay through one door only.

  A share is released for a challenge that this relay drew for recovery and that nothing has
  spent since, in time, for a performance that `verifyTrajectory` accepts and whose every
  descriptor is the human bound to the share; the human of a record stays the one that was bound
  first; and after `k` failed attempts in a row no attempt is evaluated before `releaseBackoffMs
  k` has gone by since the last.
-/
import NeuronWeb.Relay.Turns

set_option autoImplicit false

namespace NeuronWeb

variable {F : Type} [JsNumber F]

/-! ## What an accepted performance holds -/

theorem checkAction_eq_none {i : Nat} {demanded : String} {p : Json F}
    (h : checkAction i demanded p = none) :
    ∃ d, descriptorOf (p.property "descriptor") = some d := by
  unfold checkAction at h
  dsimp only at h
  split at h
  · cases h
  · split at h
    · cases h
    · split at h
      · cases h
      · split at h
        · cases h
        · exact ⟨_, ‹_›⟩

theorem rejectedWith_ne_ok (value : Option (Json F)) (text : String → String) :
    rejectedWith value text ≠ .ok := by
  unfold rejectedWith
  split <;> exact TrajectoryVerdict.noConfusion

theorem checkAction_ne_ok (i : Nat) (demanded : String) (p : Json F) :
    checkAction i demanded p ≠ some .ok := by
  unfold checkAction
  dsimp only
  split
  · exact fun h => rejectedWith_ne_ok _ _ (Option.some.inj h)
  · split
    · exact fun h => rejectedWith_ne_ok _ _ (Option.some.inj h)
    · split
      · exact fun h => TrajectoryVerdict.noConfusion (Option.some.inj h)
      · split
        · exact fun h => TrajectoryVerdict.noConfusion (Option.some.inj h)
        · exact (Option.some_ne_none _).symm

theorem checkActions_ne_ok (i : Nat) (sequence : List String) (actions : List (Json F)) :
    checkActions i sequence actions ≠ some .ok := by
  induction actions generalizing i sequence with
  | nil => cases sequence <;> exact (Option.some_ne_none _).symm
  | cons action actions ih =>
    cases sequence with
    | nil => exact (Option.some_ne_none _).symm
    | cons demanded sequence =>
      intro h
      rw [checkActions, Option.or_eq_some_iff] at h
      rcases h with h | ⟨-, h⟩
      · exact checkAction_ne_ok i demanded action h
      · exact ih (i + 1) sequence h

theorem checkActions_eq_none {i : Nat} {sequence : List String} {actions : List (Json F)}
    (hlength : actions.length = sequence.length) (h : checkActions i sequence actions = none) :
    ∀ p ∈ actions, ∃ d, descriptorOf (p.property "descriptor") = some d := by
  induction actions generalizing i sequence with
  | nil =>
    intro p hp
    cases hp
  | cons action actions ih =>
    cases sequence with
    | nil => cases hlength
    | cons demanded sequence =>
      rw [checkActions, Option.or_eq_none_iff] at h
      intro p hp
      rcases List.mem_cons.mp hp with rfl | hp
      · exact checkAction_eq_none h.1
      · exact ih (Nat.succ.inj hlength) h.2 p hp

/-- Where a proof has its descriptors. -/
def descriptorFields (proof : Json F) : List (Option (Json F)) :=
  proof.property "neutralDescriptor" ::
    (actionsOf proof).map fun p => p.property "descriptor"

theorem mem_descriptorsOf {proof : Json F} {v : Option (Json F)} {d : List F}
    (hv : v ∈ descriptorFields proof) (hd : descriptorOf v = some d) :
    d ∈ descriptorsOf proof := by
  rcases List.mem_cons.mp hv with rfl | hv
  · exact List.mem_append_left _ (by rw [hd]; exact List.mem_singleton_self d)
  · obtain ⟨p, hp, rfl⟩ := List.mem_map.mp hv
    exact List.mem_append_right _ (List.mem_filterMap.mpr ⟨p, hp, hd⟩)

theorem verifyTrajectory_ok {toFixed3 : F → String} {sequence : List String} {proof : Json F}
    (h : verifyTrajectory toFixed3 sequence proof = .ok) :
    ∀ v ∈ descriptorFields proof, ∃ d, descriptorOf v = some d := by
  unfold verifyTrajectory at h
  split at h
  · cases h
  · next neutral hneutral =>
      split at h
      · next actions hactions =>
          have hlist : actionsOf proof = actions := by rw [actionsOf, hactions]
          split at h
          · cases h
          · next hlength =>
              have hchecked : checkActions 0 sequence actions = none := by
                cases hcheck : checkActions 0 sequence actions with
                | none => rfl
                | some verdict =>
                  dsimp only at h
                  rw [hcheck, Option.some_or, Option.getD_some] at h
                  exact absurd (hcheck.trans (congrArg some h))
                    (checkActions_ne_ok 0 sequence actions)
              intro v hv
              rcases List.mem_cons.mp hv with rfl | hv
              · exact ⟨neutral, hneutral⟩
              · obtain ⟨p, hp, rfl⟩ := List.mem_map.mp hv
                rw [hlist] at hp
                exact checkActions_eq_none (not_not.mp hlength) hchecked p hp
      · exact absurd h (rejectedWith_ne_ok _ _)

namespace Relay

/-! ## Challenges that are drawn, and spent -/

/-- A release request with this challenge got past the session check. -/
def Event.Spends (id : String) (e : Event F) : Prop :=
  ∃ req now, e.input = .releaseShare req now ∧ req.challengeId = id ∧
    ∀ message, e.answer ≠ some (.error 400 message)

/-- The relay drew this sequence for recovery under the id, and nothing has spent it since. -/
def DrawnUnspent (events : List (Event F)) (id : String) (sequence : List String)
    (drawnAt : Int) : Prop :=
  ∃ earlier draw later, events = earlier ++ draw :: later ∧
    (∃ ip rolls, draw.input = .recoveryChallenge ip id rolls drawnAt ∧
      sequence = drawRecoverySequence rolls) ∧
    ∀ e ∈ later, ¬ e.Spends id

omit [JsNumber F] in
theorem DrawnUnspent.snoc {events : List (Event F)} {id : String} {sequence : List String}
    {drawnAt : Int} {e : Event F} (h : DrawnUnspent events id sequence drawnAt)
    (hspends : ¬ e.Spends id) : DrawnUnspent (events ++ [e]) id sequence drawnAt := by
  obtain ⟨earlier, draw, later, hevents, hdraw, hlater⟩ := h
  refine ⟨earlier, draw, later ++ [e], by simp [hevents], hdraw, ?_⟩
  intro e' he'
  rcases List.mem_append.mp he' with he' | he'
  · exact hlater e' he'
  · rw [List.mem_singleton.mp he']
    exact hspends

/-! ## Failed attempts in a row -/

/-- How many attempts on a record have failed since the last release, and when the last
of them did. -/
structure Streak where
  count : Nat
  lastFailure : Int

/-- The record that a release request is about. -/
def ReleaseRequest.key? (req : ReleaseRequest F) : Option String :=
  req.accountId.map (shareKey req.network)

def Streak.after (key : String) (k : Streak) (e : Event F) : Streak :=
  match e.input, e.answer with
  | .releaseShare req now, some (.denied _) =>
    if req.key? = some key then ⟨k.count + 1, now⟩ else k
  | .releaseShare req _, some (.released _ _ _) =>
    if req.key? = some key then ⟨0, k.lastFailure⟩ else k
  | _, _ => k

def streak (key : String) (events : List (Event F)) : Streak :=
  events.foldl (Streak.after key) ⟨0, 0⟩

omit [JsNumber F] in
theorem streak_snoc (key : String) (events : List (Event F)) (e : Event F) :
    streak key (events ++ [e]) = (streak key events).after key e := by
  rw [streak, List.foldl_append]
  rfl

/-- The backoff of the failures so far is over. -/
def Streak.Rested (k : Streak) (now : Int) : Prop :=
  0 < k.count → k.lastFailure + releaseBackoffMs k.count ≤ now

/-! ## The gate -/

section Gate

variable (P : Primitives F) (cfg : RelayConfig F)

/-- What a request must bring to get the share of a record. -/
structure Gated (w : History F) (req : ReleaseRequest F) (now : Int) (record : ShareRecord F) :
    Prop where
  performed : ∃ sequence drawnAt, DrawnUnspent w.events req.challengeId sequence drawnAt ∧
    now - drawnAt ≤ CHALLENGE_TTL_MS ∧ verifyTrajectory cfg.toFixed3 sequence req.proof = .ok
  faces : ∀ v ∈ descriptorFields req.proof, ∃ d, descriptorOf v = some d ∧
    w.relay.matchesNid req.network record.nid d = true

/-- What holds of one input to the relay: its answer, and the records before and after it. -/
structure ReleaseGate (w : History F) (input : Input F) (w' : History F) : Prop where
  gated : ∀ shareHex x ts, (w.relay.handle P cfg input).2 = some (.released shareHex x ts) →
    ∃ req now accountId record, input = .releaseShare req now ∧
      req.accountId = some accountId ∧
      w.relay.recoveryShareStore.get? (shareKey req.network accountId) = some record ∧
      record.shareHex = shareHex ∧ record.x = x ∧ record.ts = ts ∧ Gated cfg w req now record
  bound : ∀ key record, w.relay.recoveryShareStore.get? key = some record →
    ∃ record', w'.relay.recoveryShareStore.get? key = some record' ∧ record'.nid = record.nid
  rested : ∀ req now accountId answer, input = .releaseShare req now →
    req.accountId = some accountId → (w.relay.handle P cfg input).2 = some answer →
    Evaluated answer → (streak (shareKey req.network accountId) w.events).Rested now
  counted : ∀ key record, w'.relay.recoveryShareStore.get? key = some record →
    record.fails = (streak key w'.events).count

/-- A record, or its absence, tells the failures so far. -/
def Tells (record? : Option (ShareRecord F)) (k : Streak) : Prop :=
  match record? with
  | none => k.count = 0
  | some record => record.fails = k.count ∧
      (0 < k.count → record.lockedUntil = k.lastFailure + releaseBackoffMs k.count)

/-- What a relay's sessions and records say of its past; every record is bound. -/
structure Faithful (w : History F) : Prop where
  named : ∀ key record, w.relay.recoveryShareStore.get? key = some record → record.nid ≠ ""
  drawn : ∀ id session sequence, w.relay.sessions.get? id = some session →
    session.type = "recovery" → session.used = false → session.sequence = some sequence →
    DrawnUnspent w.events id sequence session.createdAt
  tells : ∀ key, Tells (w.relay.recoveryShareStore.get? key) (streak key w.events)

omit [JsNumber F] in
theorem faithful_new : Faithful (History.new : History F) where
  named key record h := by cases h
  drawn id session sequence h := by cases h
  tells key := rfl

variable {P cfg} {w : History F}

theorem Faithful.drawn_step (hw : Faithful w) (input : Input F) (id : String)
    (session : ChallengeSession) (sequence : List String)
    (h : (w.step P cfg input).relay.sessions.get? id = some session)
    (htype : session.type = "recovery") (hused : session.used = false)
    (hsequence : session.sequence = some sequence) :
    DrawnUnspent (w.step P cfg input).events id sequence session.createdAt := by
  obtain hold | ⟨ip, network, left, now, -, hsession⟩ | ⟨ip, rolls, now, hinput, hsession⟩ :=
    handle_sessions h hused
  · refine (hw.drawn id session sequence hold htype hused hsequence).snoc ?_
    rintro ⟨req, now, rfl, rfl, hspent⟩
    -- what is still unspent after the request was not its challenge
    obtain ⟨-, ⟨message, hr⟩ | hne⟩ := releaseShare_sessions cfg h hused
    · refine hspent message ?_
      show some (releaseShare cfg w.relay req now).2 = _
      rw [hr]
    · exact hne rfl
  · rw [hsession] at htype
    cases left
    · exact absurd htype (by decide : "look-right" ≠ "recovery")
    · exact absurd htype (by decide : "look-left" ≠ "recovery")
  · subst hsession
    cases hsequence
    exact ⟨w.events, ⟨w.relay, input, _⟩, [], rfl, ⟨ip, rolls, hinput, rfl⟩,
      fun e he => by cases he⟩

/-! ## The records -/

section

omit [JsNumber F]

theorem Streak.after_of_not_release {key : String} {k : Streak} {e : Event F}
    (h : ∀ req now, e.input ≠ .releaseShare req now) : k.after key e = k := by
  unfold Streak.after
  split
  · exact absurd ‹_› (h _ _)
  · exact absurd ‹_› (h _ _)
  · rfl

theorem Tells.restored {record? : Option (ShareRecord F)} {k : Streak} (h : Tells record? k)
    (record : ShareRecord F) (hfails : record.fails = (record?.map ShareRecord.fails).getD 0)
    (hlocked : record.lockedUntil = (record?.map ShareRecord.lockedUntil).getD 0) :
    Tells (some record) k := by
  cases record? with
  | none =>
    have hzero : k.count = 0 := h
    exact ⟨hfails.trans hzero.symm, fun hpos => by omega⟩
  | some old => exact ⟨hfails.trans h.1, fun hpos => hlocked.trans (h.2 hpos)⟩

theorem Tells.failed {record : ShareRecord F} {k : Streak} (h : Tells (some record) k)
    (now : Int) :
    Tells (some { record with
      fails := record.fails + 1
      lockedUntil := now + releaseBackoffMs (record.fails + 1) }) ⟨k.count + 1, now⟩ := by
  refine ⟨?_, fun _ => ?_⟩
  · show record.fails + 1 = k.count + 1
    rw [h.1]
  · show now + releaseBackoffMs (record.fails + 1) = now + releaseBackoffMs (k.count + 1)
    rw [h.1]

theorem Tells.set {store : JsMap String (ShareRecord F)} {k : String → Streak}
    (k' : String → Streak) {key : String} {record : ShareRecord F}
    (h : ∀ j, Tells (store.get? j) (k j))
    (hkey : Tells (some record) (k' key)) (hother : ∀ j, key ≠ j → k' j = k j) (j : String) :
    Tells ((store.set key record).get? j) (k' j) := by
  rw [JsMap.get?_set]
  split
  · next heq =>
      rw [← heq]
      exact hkey
  · next hne =>
      rw [hother j hne]
      exact h j

end

theorem Faithful.tells_storeShare (hw : Faithful w) (req : StoreRequest F) (key : String) :
    Tells ((w.step P cfg (.storeShare req)).relay.recoveryShareStore.get? key)
      (streak key (w.step P cfg (.storeShare req)).events) := by
  show Tells ((w.relay.storeShare P req).1.recoveryShareStore.get? key)
    (streak key (w.events ++ [_]))
  rw [streak_snoc, Streak.after_of_not_release (fun _ _ h => by cases h)]
  obtain ⟨_, _, hs⟩ | ⟨accountId, _, _, _, -, -, -, hs⟩ := storeShare_cases P w.relay req <;>
    rw [hs]
  · exact hw.tells key
  · exact Tells.set _ hw.tells ((hw.tells _).restored _ rfl rfl) (fun _ _ => rfl) key

theorem Faithful.tells_releaseShare (hw : Faithful w) (req : ReleaseRequest F) (now : Int)
    (key : String) :
    Tells ((w.step P cfg (.releaseShare req now)).relay.recoveryShareStore.get? key)
      (streak key (w.step P cfg (.releaseShare req now)).events) := by
  show Tells ((w.relay.releaseShare cfg req now).1.recoveryShareStore.get? key)
    (streak key (w.events ++ [⟨w.relay, _, some (w.relay.releaseShare cfg req now).2⟩]))
  rw [streak_snoc]
  obtain ⟨_, hr⟩ | ⟨accountId, _, sequence, haccount, -, -, -, -, -,
      ⟨_, _, hr⟩ | ⟨record, hrecord, -, hr⟩⟩ := releaseShare_cases cfg w.relay req now
  · rw [hr]
    exact hw.tells key
  · rw [hr]
    exact hw.tells key
  · rw [hr]
    have hkey : req.key? = some (shareKey req.network accountId) := by
      rw [ReleaseRequest.key?, haccount, Option.map_some]
    have htells := hw.tells (shareKey req.network accountId)
    rw [hrecord] at htells
    obtain he | ⟨message, he⟩ | ⟨-, -, he⟩ := evaluateRelease_cases cfg
      (w.relay.admitted req now) req (shareKey req.network accountId) record sequence now
    · rw [he]
      exact hw.tells key
    · rw [he]
      refine Tells.set (fun j => (streak j w.events).after j _) hw.tells ?_ ?_ key
      · simp only [Streak.after, failRelease, hkey, if_true]
        exact htells.failed now
      · intro j hne
        simp only [Streak.after, failRelease, hkey, Option.some.injEq, if_neg hne]
    · rw [he]
      refine Tells.set (fun j => (streak j w.events).after j _) hw.tells ?_ ?_ key
      · simp only [Streak.after, hkey, if_true]
        exact ⟨rfl, fun hpos => absurd hpos (Nat.lt_irrefl 0)⟩
      · intro j hne
        simp only [Streak.after, hkey, Option.some.injEq, if_neg hne]

theorem nidToBind_of_bound (s : Relay F) {record : ShareRecord F} (hnid : record.nid ≠ "")
    (accountId : Hex) (descriptor : Option (List F)) (network : Network) :
    s.nidToBind (some record) accountId descriptor network = record.nid := by
  unfold nidToBind
  exact if_pos hnid

variable (P cfg) in
/-- An input leaves the records alone, or writes one, which keeps the human that the record
was bound to. -/
theorem Faithful.writes (hw : Faithful w) (input : Input F) :
    (w.step P cfg input).relay.recoveryShareStore = w.relay.recoveryShareStore ∨
    ∃ key record, record.nid ≠ "" ∧
      (w.step P cfg input).relay.recoveryShareStore =
        w.relay.recoveryShareStore.set key record ∧
      ∀ old, w.relay.recoveryShareStore.get? key = some old → record.nid = old.nid := by
  by_cases hrelease : ∃ req now, input = .releaseShare req now
  · obtain ⟨req, now, rfl⟩ := hrelease
    show (w.relay.releaseShare cfg req now).1.recoveryShareStore = _ ∨ ∃ key record, _ ∧
      (w.relay.releaseShare cfg req now).1.recoveryShareStore = _ ∧ _
    obtain ⟨_, hr⟩ | ⟨accountId, _, sequence, -, -, -, -, -, -,
        ⟨_, _, hr⟩ | ⟨record, hrecord, -, hr⟩⟩ := releaseShare_cases cfg w.relay req now
    · exact .inl (by rw [hr])
    · exact .inl (by rw [hr]; rfl)
    · have hnamed := hw.named _ record hrecord
      have hsame : ∀ old, w.relay.recoveryShareStore.get? (shareKey req.network accountId) =
          some old → record.nid = old.nid := fun old hold => by
        rw [Option.some.inj (hrecord.symm.trans hold)]
      rw [hr]
      obtain he | ⟨_, he⟩ | ⟨-, -, he⟩ := evaluateRelease_cases cfg
        (w.relay.admitted req now) req (shareKey req.network accountId) record sequence now
      · exact .inl (by rw [he]; rfl)
      · exact .inr ⟨_, { record with
          fails := record.fails + 1
          lockedUntil := now + releaseBackoffMs (record.fails + 1) }, hnamed, by rw [he]; rfl,
          hsame⟩
      · exact .inr ⟨_, { record with fails := 0, lockedUntil := 0 }, hnamed,
          by rw [he]; rfl, hsame⟩
  · by_cases hstore : ∃ req, input = .storeShare req
    · obtain ⟨req, rfl⟩ := hstore
      show (w.relay.storeShare P req).1.recoveryShareStore = _ ∨ ∃ key record, _ ∧
        (w.relay.storeShare P req).1.recoveryShareStore = _ ∧ _
      obtain ⟨_, _, hs⟩ | ⟨accountId, _, _, _, -, -, hnid, hs⟩ :=
        storeShare_cases P w.relay req
      · exact .inl (by rw [hs])
      · refine .inr ⟨_, _, hnid, by rw [hs], ?_⟩
        intro old hold
        show w.relay.nidToBind _ accountId req.descriptor req.network = old.nid
        rw [hold]
        exact nidToBind_of_bound w.relay (hw.named _ old hold) _ _ _
    · exact .inl (handle_recoveryShareStore (fun req h => hstore ⟨req, h⟩)
        (fun req now h => hrelease ⟨req, now, h⟩))

variable (P cfg) in
theorem Faithful.bound (hw : Faithful w) (input : Input F) (key : String)
    (record : ShareRecord F) (h : w.relay.recoveryShareStore.get? key = some record) :
    ∃ record', (w.step P cfg input).relay.recoveryShareStore.get? key = some record' ∧
      record'.nid = record.nid := by
  obtain hsame | ⟨written, new, -, hset, hkeeps⟩ := hw.writes P cfg input
  · exact ⟨record, by rw [hsame, h], rfl⟩
  · rw [hset, JsMap.get?_set]
    split
    · next heq => exact ⟨new, rfl, hkeeps record (heq ▸ h)⟩
    · exact ⟨record, h, rfl⟩

theorem Faithful.named_step (hw : Faithful w) (input : Input F) (key : String)
    (record : ShareRecord F)
    (h : (w.step P cfg input).relay.recoveryShareStore.get? key = some record) :
    record.nid ≠ "" := by
  obtain hsame | ⟨written, new, hnew, hset, -⟩ := hw.writes P cfg input
  · rw [hsame] at h
    exact hw.named key record h
  · rw [hset, JsMap.get?_set] at h
    split at h
    · rw [← Option.some.inj h]
      exact hnew
    · exact hw.named key record h

theorem Faithful.step (hw : Faithful w) (input : Input F) :
    Faithful (w.step P cfg input) where
  named := hw.named_step input
  drawn := hw.drawn_step input
  tells key := by
    by_cases hrelease : ∃ req now, input = .releaseShare req now
    · obtain ⟨req, now, rfl⟩ := hrelease
      exact hw.tells_releaseShare req now key
    · by_cases hstore : ∃ req, input = .storeShare req
      · obtain ⟨req, rfl⟩ := hstore
        exact hw.tells_storeShare req key
      · show Tells ((w.relay.handle P cfg input).1.recoveryShareStore.get? key)
          (streak key (w.events ++ [_]))
        rw [handle_recoveryShareStore (fun req h => hstore ⟨req, h⟩)
          (fun req now h => hrelease ⟨req, now, h⟩), streak_snoc,
          Streak.after_of_not_release fun req now h => hrelease ⟨req, now, h⟩]
        exact hw.tells key

/-! ## The gate holds -/

theorem Faithful.gated (hw : Faithful w) {input : Input F} {shareHex : String} {x : Option Nat}
    {ts : F} (h : (w.relay.handle P cfg input).2 = some (.released shareHex x ts)) :
    ∃ req now accountId record, input = .releaseShare req now ∧
      req.accountId = some accountId ∧
      w.relay.recoveryShareStore.get? (shareKey req.network accountId) = some record ∧
      record.shareHex = shareHex ∧ record.x = x ∧ record.ts = ts ∧
      Gated cfg w req now record := by
  obtain ⟨req, now, rfl⟩ := handle_released h
  have hanswer : (w.relay.releaseShare cfg req now).2 = .released shareHex x ts :=
    Option.some.inj h
  have hevaluated : Evaluated (w.relay.releaseShare cfg req now).2 := by
    rw [hanswer]
    trivial
  obtain ⟨accountId, session, sequence, record, haccount, hsession, hused, htype, hsequence,
    hfresh, hrecord, -, hr⟩ := releaseShare_evaluated cfg hevaluated
  rw [hr] at hanswer
  obtain he | ⟨_, he⟩ | ⟨hverdict, hfaces, he⟩ := evaluateRelease_cases cfg
    (w.relay.admitted req now) req (shareKey req.network accountId) record sequence now
  · rw [he] at hanswer
    cases hanswer
  · rw [he] at hanswer
    cases hanswer
  · rw [he] at hanswer
    cases hanswer
    refine ⟨req, now, accountId, record, rfl, haccount, hrecord, rfl, rfl, rfl, ?_, ?_⟩
    · exact ⟨sequence, session.createdAt, hw.drawn _ session sequence
        (session?_eq_some hsession).2 htype hused hsequence, hfresh, hverdict⟩
    · intro v hv
      obtain ⟨d, hd⟩ := verifyTrajectory_ok hverdict v hv
      exact ⟨d, hd, hfaces d (mem_descriptorsOf hv hd)⟩

theorem Faithful.rested (hw : Faithful w) {req : ReleaseRequest F} {now : Int}
    {accountId : Hex} (haccount : req.accountId = some accountId)
    (h : Evaluated (w.relay.releaseShare cfg req now).2) :
    (streak (shareKey req.network accountId) w.events).Rested now := by
  obtain ⟨accountId', _, _, record, haccount', -, -, -, -, -, hrecord, hlocked, -⟩ :=
    releaseShare_evaluated cfg h
  cases haccount.symm.trans haccount'
  have htells := hw.tells (shareKey req.network accountId)
  rw [hrecord] at htells
  intro hpos
  rw [← htells.2 hpos]
  exact hlocked

variable (P cfg)

/-- Every run of a relay keeps the gate. -/
theorem release_gated (inputs : List (Input F)) :
    Run.EveryStep (History.step P cfg) (ReleaseGate P cfg) History.new inputs := by
  refine Run.everyStep_of_invariant (C := fun _ _ => True) (I := Faithful)
    (fun w input hw _ => hw.step input) ?_ faithful_new
    (Run.stepsMeet_of_forall (fun _ _ => trivial) _ _)
  intro w input hw _
  refine ⟨fun _ _ _ h => hw.gated h, hw.bound P cfg input, ?_, ?_⟩
  · rintro req now accountId answer rfl haccount hanswer hevaluated
    rw [← Option.some.inj hanswer] at hevaluated
    exact hw.rested haccount hevaluated
  · intro key record hrecord
    have hafter : Faithful (w.step P cfg input) := hw.step input
    have htells := hafter.tells key
    rw [hrecord] at htells
    exact htells.1

end Gate

end Relay

end NeuronWeb
