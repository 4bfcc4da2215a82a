/-
  Relay/ShareBinding: the human that a first share is bound to.

  A store binds the human of the relay's own attestation of the account, looked up under the
  account's id.  A verify request may name any account, so the binding is the enrolled
  human's where no one else's face is attested for the account before its first share
  arrives (`bound_to_enrolled`); one request of a stranger in between, and the share is bound to
  the stranger (`bound_to_stranger`).
-/
import NeuronWeb.Relay.RecoveryGate
import NeuronWeb.Relay.Sample

set_option autoImplicit false

namespace NeuronWeb.Relay

variable {F : Type}

/-! ## Keys of records -/

theorem shareKey_inj {network network' : Network} {accountId accountId' : Hex}
    (h : shareKey network accountId = shareKey network' accountId') :
    network = network' ∧ accountId = accountId' := by
  have hlist := congrArg String.toList h
  simp only [shareKey, String.toList_append] at hlist
  cases network <;> cases network' <;> simp [Network.name] at hlist
  · exact ⟨rfl, String.toList_inj.mp hlist⟩
  · exact ⟨rfl, String.toList_inj.mp hlist⟩

/-! ## What the relay knows of an account -/

theorem nidForAccount_cases (s : Relay F) (accountId : Hex) :
    s.nidForAccount accountId = "" ∨
    (∃ use, s.pendingFaceUses.get? accountId = some use ∧
      s.nidForAccount accountId = use.nid) ∨
    ∃ u claim, s.usernameRegistry.get? u = some claim ∧ claim.accountId = accountId ∧
      s.nidForAccount accountId = claim.nid := by
  unfold nidForAccount
  split
  · next use huse => exact .inr (.inl ⟨use, (Option.filter_eq_some_iff.mp huse).1, rfl⟩)
  · cases hfind : s.usernameRegistry.values.find? fun claim =>
        claim.accountId = accountId && claim.nid ≠ "" with
    | none => exact .inl rfl
    | some claim =>
      have hvalue : claim ∈ s.usernameRegistry.values := List.mem_of_find?_eq_some hfind
      obtain ⟨⟨u, claim'⟩, hentry, rfl⟩ := List.mem_map.mp hvalue
      have hclaim := List.find?_some hfind
      simp only [Bool.and_eq_true, decide_eq_true_eq] at hclaim
      exact .inr (.inr ⟨u, claim', (JsMap.get?_eq_some_iff _ _ _).mpr hentry, hclaim.1, rfl⟩)

section Binding

variable [JsNumber F] {P : Primitives F} {cfg : RelayConfig F}

/-- A record that was not there is written by a store alone. -/
theorem handle_first_record {s : Relay F} {input : Input F} {key : String}
    {record : ShareRecord F} (hnone : s.recoveryShareStore.get? key = none)
    (h : (s.handle P cfg input).1.recoveryShareStore.get? key = some record) :
    ∃ req accountId, input = .storeShare req ∧ req.accountId = some accountId ∧
      key = shareKey req.network accountId ∧
      record.nid = s.nidToBind none accountId req.descriptor req.network ∧ record.nid ≠ "" := by
  have hunset : ∀ {written : String} {new : ShareRecord F} {old : ShareRecord F},
      s.recoveryShareStore.get? written = some old →
        (s.recoveryShareStore.set written new).get? key ≠ some record := by
    intro written new old hold hget
    have hne : written ≠ key := by
      rintro rfl
      rw [hnone] at hold
      cases hold
    rw [JsMap.get?_set_ne _ _ hne, hnone] at hget
    cases hget
  by_cases hrelease : ∃ req now, input = .releaseShare req now
  · obtain ⟨req, now, rfl⟩ := hrelease
    replace h : (s.releaseShare cfg req now).1.recoveryShareStore.get? key = _ := h
    obtain ⟨_, hr⟩ | ⟨accountId, _, sequence, -, -, -, -, -, -,
        ⟨_, _, hr⟩ | ⟨old, hold, -, hr⟩⟩ := releaseShare_cases cfg s req now <;> rw [hr] at h
    · rw [hnone] at h
      cases h
    · exact absurd (hnone.symm.trans h) (Option.some_ne_none _).symm
    · obtain he | ⟨_, he⟩ | ⟨-, -, he⟩ := evaluateRelease_cases cfg
        (s.admitted req now) req (shareKey req.network accountId) old sequence now <;>
        rw [he] at h
      · exact absurd (hnone.symm.trans h) (Option.some_ne_none _).symm
      · exact absurd h (hunset hold)
      · exact absurd h (hunset hold)
  · by_cases hstore : ∃ req, input = .storeShare req
    · obtain ⟨req, rfl⟩ := hstore
      replace h : (s.storeShare P req).1.recoveryShareStore.get? key = _ := h
      obtain ⟨_, _, hs⟩ | ⟨accountId, shareHex, ts, x, haccount, -, hnid, hs⟩ :=
        storeShare_cases P s req <;> rw [hs] at h
      · rw [hnone] at h
        cases h
      · dsimp only at h
        rw [JsMap.get?_set] at h
        split at h
        · next heq =>
            rw [heq, hnone] at h hnid
            cases h
            exact ⟨req, accountId, rfl, haccount, heq.symm, rfl, hnid⟩
        · rw [hnone] at h
          cases h
    · rw [handle_recoveryShareStore (fun req heq => hstore ⟨req, heq⟩)
        (fun req now heq => hrelease ⟨req, now, heq⟩), hnone] at h
      cases h

variable (accountId : Hex) (network : Network) (nid : String)

/-- Until the account's first share is stored, only the enrolled human is attested for it;
and where the first store falls back on a live face, the face is that human's. -/
def OnlyEnrolled (s : Relay F) : Input F → Prop
  | .resume i _ _ => ∀ req nid' faceCount,
      s.handlers[i]? = some (some (.saving req accountId nid' faceCount)) →
      s.recoveryShareStore.get? (shareKey network accountId) = none → nid' = nid
  | .storeShare req => req.accountId = some accountId → req.network = network →
      s.recoveryShareStore.get? (shareKey network accountId) = none →
      s.nidForAccount accountId = "" → ∀ d face, validateDescriptor req.descriptor = some d →
      findMatchingFace s.faceDescriptorDB d network = some face → face.2.nid = nid
  | _ => True

/-- The share of the account, where there is one, is bound to the human. -/
def BoundTo (w : History F) : Prop :=
  ∀ record, w.relay.recoveryShareStore.get? (shareKey network accountId) = some record →
    record.nid = nid

/-- Before the first share all that the relay knows of the account is the enrolled human. -/
structure Enrolled (w : History F) : Prop where
  faithful : Faithful w
  bound : BoundTo accountId network nid w
  pending : w.relay.recoveryShareStore.get? (shareKey network accountId) = none →
    ∀ use, w.relay.pendingFaceUses.get? accountId = some use → use.nid = nid
  names : w.relay.recoveryShareStore.get? (shareKey network accountId) = none →
    ∀ u claim, w.relay.usernameRegistry.get? u = some claim → claim.accountId = accountId →
      claim.nid = nid

variable {accountId network nid} {w : History F} {input : Input F}

theorem Enrolled.first_binding (hw : Enrolled accountId network nid w) {req : StoreRequest F}
    (honly : OnlyEnrolled accountId network nid w.relay (.storeShare req))
    (haccount : req.accountId = some accountId) (hnetwork : req.network = network)
    (hnone : w.relay.recoveryShareStore.get? (shareKey network accountId) = none)
    (hbinds : w.relay.nidToBind none accountId req.descriptor req.network ≠ "") :
    w.relay.nidToBind none accountId req.descriptor req.network = nid := by
  unfold nidToBind at hbinds ⊢
  dsimp only at hbinds ⊢
  split
  · next hknown =>
      obtain hempty | ⟨use, huse, heq⟩ | ⟨u, claim, hclaim, hsame, heq⟩ :=
        nidForAccount_cases w.relay accountId
      · exact absurd hempty hknown
      · rw [heq]
        exact hw.pending hnone use huse
      · rw [heq]
        exact hw.names hnone u claim hclaim hsame
  · next hunknown =>
      rw [if_neg hunknown] at hbinds
      split
      · next face hface =>
          obtain ⟨d, hd, hmatch⟩ := Option.bind_eq_some_iff.mp hface
          rw [hnetwork] at hmatch
          exact honly haccount hnetwork hnone (not_not.mp hunknown) d _ hd hmatch
      · next hnoface =>
          rw [hnoface] at hbinds
          exact absurd rfl hbinds

theorem Enrolled.step (hw : Enrolled accountId network nid w)
    (honly : OnlyEnrolled accountId network nid w.relay input) :
    Enrolled accountId network nid (w.step P cfg input) := by
  have hafter : Faithful (w.step P cfg input) := hw.faithful.step input
  -- a record that is missing after the step was missing before
  have hmissing : (w.step P cfg input).relay.recoveryShareStore.get?
      (shareKey network accountId) = none →
      w.relay.recoveryShareStore.get? (shareKey network accountId) = none := by
    intro h
    cases hbefore : w.relay.recoveryShareStore.get? (shareKey network accountId) with
    | none => rfl
    | some record =>
      obtain ⟨_, hget, -⟩ := hw.faithful.bound P cfg input _ record hbefore
      rw [h] at hget
      cases hget
  refine ⟨hafter, ?_, ?_, ?_⟩
  · intro record hrecord
    cases hbefore : w.relay.recoveryShareStore.get? (shareKey network accountId) with
    | some old =>
      obtain ⟨record', hget, hsame⟩ := hw.faithful.bound P cfg input _ old hbefore
      cases hrecord.symm.trans hget
      rw [hsame]
      exact hw.bound old hbefore
    | none =>
      obtain ⟨req, accountId', rfl, haccount, hkey, hnid, hne⟩ :=
        handle_first_record hbefore hrecord
      obtain ⟨hnetwork, rfl⟩ := shareKey_inj hkey
      rw [hnid] at hne ⊢
      exact hw.first_binding honly haccount hnetwork.symm hbefore hne
  · intro hnone use huse
    obtain hold | ⟨i, uuid, now, req, nid', faceCount, rfl, hframe, rfl⟩ :=
      handle_pendingFaceUses huse
    · exact hw.pending (hmissing hnone) use hold
    · exact honly req nid' faceCount hframe (hmissing hnone)
  · intro hnone u claim hclaim hsame
    obtain hold | ⟨i, uuid, now, req, faceCount, rfl, hframe, -⟩ :=
      handle_usernameRegistry hclaim
    · exact hw.names (hmissing hnone) u claim hold hsame
    · rw [hsame] at hframe
      exact honly req claim.nid faceCount hframe (hmissing hnone)

omit [JsNumber F] in
theorem enrolled_new : Enrolled accountId network nid (History.new : History F) where
  faithful := faithful_new
  bound record h := by cases h
  pending _ use h := by cases h
  names _ u claim h := by cases h

end Binding

section Runs

variable [JsNumber F] (P : Primitives F) (cfg : RelayConfig F)

/-- Where no one else is attested for an account before its first share, the share is bound to
the enrolled human, then and for good. -/
theorem bound_to_enrolled (accountId : Hex) (network : Network) (nid : String)
    (inputs : List (Input F))
    (honly : Run.StepsMeet (History.step P cfg)
      (fun w input => OnlyEnrolled accountId network nid w.relay input) History.new inputs) :
    Run.Always (History.step P cfg) (BoundTo accountId network nid) History.new inputs :=
  Run.always_of_invariant (I := Enrolled accountId network nid)
    (fun _ _ hw h => hw.step h) (fun _ hw => hw.bound) enrolled_new honly

end Runs

section Samples

open NeuronWeb.Sample (relayConfig enrol)

/-- The owner's account, which is the key that its requests are signed with. -/
def anAccount : Hex := "02" ++ "".pushn 'a' 64

/-- The owner's first share. -/
def aShare : StoreRequest Rat where
  network := .testnet
  accountId := some anAccount
  share := some ("".pushn '5' 64)
  ts := some 1
  sig := some (Sample.signature
    (sharePayload anAccount .testnet (some 1) ("".pushn '5' 64) (1 : Rat)) anAccount)
  x := some (some 1)
  descriptor := none

def anEnrolledAccount : List (Input Rat) :=
  [.challenge "127.0.0.1" .testnet "c" true 0,
    .verify (enrol .testnet anAccount "ann" "c" 0) 1, .resume 0 "ann's nid" 2, .resume 0 "" 3]

/-- A stranger enrols and names the owner's account. -/
def aStranger : List (Input Rat) :=
  [.challenge "127.0.0.1" .testnet "d" true 4,
    .verify (enrol .testnet anAccount "" "d" 1) 5, .resume 1 "eve's nid" 6, .resume 1 "" 7]

/-- Whether a handler that is about to attest the account does so for the human. -/
def savesOnly (accountId : Hex) (nid : String) (s : Relay F) (i : Nat) : Bool :=
  match s.handlers[i]? with
  | some (some (.saving _ attestedId nid' _)) => attestedId ≠ accountId || nid' = nid
  | _ => true

theorem onlyEnrolled_of_savesOnly {accountId : Hex} {network : Network} {nid : String}
    [JsNumber F] {s : Relay F} {i : Nat} (h : savesOnly accountId nid s i = true) (uuid : String)
    (now : Int) : OnlyEnrolled accountId network nid s (.resume i uuid now) := by
  intro req nid' faceCount hframe _
  simp only [savesOnly, hframe, ne_eq, not_true_eq_false, decide_false, Bool.false_or,
    decide_eq_true_eq] at h
  exact h

theorem onlyEnrolled_of_noFace {accountId : Hex} {network : Network} {nid : String}
    [JsNumber F] {s : Relay F} {req : StoreRequest F} (h : req.descriptor = none) :
    OnlyEnrolled accountId network nid s (.storeShare req) := by
  intro _ _ _ _ d face hd
  rw [h] at hd
  cases hd

theorem bound_to_enrolled_anAccount :
    Run.Always (History.step Sample.primitives relayConfig)
      (BoundTo anAccount .testnet "ann's nid") History.new
      (anEnrolledAccount ++ [.storeShare aShare]) := by
  apply bound_to_enrolled
  rw [Run.StepsMeet, Run.everyStep_append]
  constructor
  · exact ⟨trivial, trivial, onlyEnrolled_of_savesOnly (by decide +kernel) _ _,
      onlyEnrolled_of_savesOnly (by decide +kernel) _ _, trivial⟩
  · exact ⟨onlyEnrolled_of_noFace rfl, trivial⟩

/-- The human that the owner's share is bound to after a run. -/
def boundHuman (inputs : List (Input Rat)) : Option String :=
  ((Run.final (History.step Sample.primitives relayConfig)
    History.new inputs).relay.recoveryShareStore.get? (shareKey .testnet anAccount)).map
      ShareRecord.nid

/-- The stranger's request between the enrolment and the store decides who the owner's share
is bound to. -/
theorem bound_to_stranger :
    boundHuman (anEnrolledAccount ++ [.storeShare aShare]) = some "ann's nid" ∧
    boundHuman (anEnrolledAccount ++ aStranger ++ [.storeShare aShare]) = some "eve's nid" := by
  decide +kernel

end Samples

end NeuronWeb.Relay
