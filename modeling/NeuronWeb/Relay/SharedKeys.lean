/-
  Relay/SharedKeys: what each of two networks sees of one relay (`relay/server.ts`).

  Every key that the relay keeps without the network has an owner. What a network sees of the
  relay is what its keys, its records and its faces have (`GateAlike`, `BlobsAlike`), and the
  entries stand under keys of the network that they came from (`GateOwned`, `BlobsOwned`,
  `AccountsOwned`).
-/
import NeuronWeb.Recovery.Shadowing
import NeuronWeb.Relay.NetworkArchive
import NeuronWeb.Relay.NetworkFaces

set_option autoImplicit false

namespace NeuronWeb.NetworkArchive

open Relay (facesOf)

variable {F : Type}

/-! ## What is shared -/

/-- What the relay keys without the network. -/
inductive SharedKey where
  | block (hash : Hex)
  | blob (pub : String)
  | username (username : String)
  /-- An account with a provisional claim. -/
  | account (accountId : Hex)
  | session (challengeId : String)
  /-- The address of a challenge or a verify request. -/
  | verifier (ip : String)
  /-- The address that posts or fetches a key blob. -/
  | fetcher (ip : String)
  deriving DecidableEq

/-- The requests of a local address are not limited. -/
def addressKeys (key : String → SharedKey) (ip : String) : List SharedKey :=
  if isLocalIp ip then [] else [key ip]

section Keys

variable [JsNumber F]

/-- The account of a blob that is posted. -/
def blobAccount (body : Except String (Json F)) : Option String :=
  match body with
  | .error _ => none
  | .ok body =>
    (KeyBlobRelay.postedBlob body).bind fun blob => Json.asString (blob.property "pub")

/-- The keys under which an input leaves something for its network. -/
def Input.takes (P : Primitives F) : Input F → List SharedKey
  | .block _ b =>
    ((b.filter fun b => verifyBlock P b).map fun b => SharedKey.block b.hash).toList
  | .blob req _ => addressKeys .fetcher req.ip ++ ((blobAccount req.body).map .blob).toList
  | .challenge ip _ id _ _ => .session id :: addressKeys .verifier ip
  | .verify req _ =>
    addressKeys .verifier req.ip ++
      ((req.accountId.filter (· ≠ "")).map .account).toList ++
      if req.username = "" then [] else [.username req.username]
  | .ask _ (.keyBlob ip _ _) _ => addressKeys .fetcher ip
  | _ => []

/-- The keys at which an input meets what another one has left. -/
def Input.meets (P : Primitives F) : Input F → List SharedKey
  | .block _ b =>
    ((b.filter fun b => verifyBlock P b && b.type = .open).map fun b =>
      SharedKey.account b.accountId).toList
  | .account _ acc =>
    if verifyAccountRecordSig P acc then
      ((Json.written (acc.property "pub")).map .account).toList
    else []
  | .generation _ m => ((Json.asString (m.property "operatorPub")).map .account).toList
  | .verify req _ => [.session req.challengeId]
  | _ => []

/-- The network that an input writes to; a reset and the timer write to both. -/
def Input.side : Input F → Option Network
  | .block network _ | .account network _ | .challenge _ network _ _ _ | .resume network _ _ _
  | .ask network _ _ => some network
  | .blob req _ => some req.network
  | .verify req _ => some req.network
  | .generation _ _ | .releaseStale _ => none

/-- What one input takes, none of the other network meets. -/
def Separate (P : Primitives F) (inputs : List (Input F)) : Prop :=
  ∀ i ∈ inputs, ∀ j ∈ inputs, ∀ k ∈ i.takes P, k ∈ j.takes P ++ j.meets P → i.side = j.side

/-- An input keeps to the keys of its network and to those that nobody takes. -/
structure Fits (P : Primitives F) (owner : SharedKey → Option Network) (i : Input F) : Prop where
  takes : ∀ k ∈ i.takes P, owner k = i.side
  meets : ∀ k ∈ i.meets P, owner k = none ∨ owner k = i.side

/-- The network of the input that takes a key. -/
def ownerIn (P : Primitives F) (inputs : List (Input F)) (k : SharedKey) : Option Network :=
  (inputs.find? fun i => decide (k ∈ i.takes P)).bind Input.side

theorem Separate.fits {P : Primitives F} {inputs : List (Input F)} (h : Separate P inputs)
    {j : Input F} (hj : j ∈ inputs) : Fits P (ownerIn P inputs) j := by
  have howner : ∀ k ∈ j.takes P ++ j.meets P,
      inputs.find? (fun i => decide (k ∈ i.takes P)) = none ∨ ownerIn P inputs k = j.side := by
    intro k hk
    cases hfind : inputs.find? fun i => decide (k ∈ i.takes P) with
    | none => exact .inl rfl
    | some i =>
      have htakes : k ∈ i.takes P := by simpa using List.find?_some hfind
      have hside := h i (List.mem_of_find?_eq_some hfind) j hj k htakes hk
      exact .inr (by rw [ownerIn, hfind, ← hside]; rfl)
  constructor
  · intro k hk
    rcases howner k (List.mem_append_left _ hk) with hnone | hside
    · exact absurd hk (by simpa using List.find?_eq_none.mp hnone j hj)
    · exact hside
  · intro k hk
    rcases howner k (List.mem_append_right _ hk) with hnone | hside
    · exact .inl (by rw [ownerIn, hnone]; rfl)
    · exact .inr hside

end Keys

/-! ## What a network sees -/

section Views

variable (owner : SharedKey → Option Network) (n : Network)

/-- The keys of one kind that a network owns. -/
def owns (key : String → SharedKey) (k : String) : Bool := decide (owner (key k) = some n)

/-- The addresses that a network owns and that are limited. -/
def limits (key : String → SharedKey) (ip : String) : Bool := !isLocalIp ip && owns owner n key ip

/-- A key of the account store that starts with the network. -/
def keyOf (key : String) : Bool := (n.name ++ ":").toList.isPrefixOf key.toList

structure GateAlike (g g' : Relay F) : Prop where
  sessions : g.sessions.restrict (owns owner n .session) =
    g'.sessions.restrict (owns owner n .session)
  faces : facesOf n g.faceDescriptorDB = facesOf n g'.faceDescriptorDB
  uses : g.pendingFaceUses.restrict (owns owner n .account) =
    g'.pendingFaceUses.restrict (owns owner n .account)
  names : g.usernameRegistry.restrict (owns owner n .username) =
    g'.usernameRegistry.restrict (owns owner n .username)
  verifiers : g.ipVerifyLog.restrict (limits owner n .verifier) =
    g'.ipVerifyLog.restrict (limits owner n .verifier)

structure BlobsAlike (b b' : KeyBlobRelay F) : Prop where
  archiveEnabled : b.archiveEnabled = b'.archiveEnabled
  keyBlobs : b.keyBlobStore.restrict (owns owner n .blob) =
    b'.keyBlobStore.restrict (owns owner n .blob)
  fetchers : b.ipBlobLog.restrict (limits owner n .fetcher) =
    b'.ipBlobLog.restrict (limits owner n .fetcher)

variable {owner : SharedKey → Option Network} {n : Network}

theorem GateAlike.refl (g : Relay F) : GateAlike owner n g g := ⟨rfl, rfl, rfl, rfl, rfl⟩

theorem GateAlike.symm {g g' : Relay F} (h : GateAlike owner n g g') : GateAlike owner n g' g :=
  ⟨h.sessions.symm, h.faces.symm, h.uses.symm, h.names.symm, h.verifiers.symm⟩

theorem GateAlike.trans {g g' g'' : Relay F} (h : GateAlike owner n g g')
    (h' : GateAlike owner n g' g'') : GateAlike owner n g g'' :=
  ⟨h.sessions.trans h'.sessions, h.faces.trans h'.faces, h.uses.trans h'.uses,
    h.names.trans h'.names, h.verifiers.trans h'.verifiers⟩

end Views

/-! ## The requests of an address -/

section Addresses

variable {log log' : JsMap String IpWindow} {p : String → Bool} {ip : String}

theorem checkAndRecordIp_other (h : p ip = false) (max : Nat) (now : Int) :
    (checkAndRecordIp log ip max now).1.restrict p = log.restrict p := by
  unfold checkAndRecordIp
  split
  · rfl
  · split
    · exact JsMap.restrict_set_of_not_mem h _
    · split
      · exact JsMap.restrict_set_of_not_mem h _
      · split
        · rfl
        · exact JsMap.restrict_set_of_not_mem h _

theorem checkAndRecordIp_alike (h : log.restrict p = log'.restrict p)
    (hip : isLocalIp ip = false → p ip = true) (max : Nat) (now : Int) :
    (checkAndRecordIp log ip max now).1.restrict p =
        (checkAndRecordIp log' ip max now).1.restrict p ∧
      (checkAndRecordIp log ip max now).2 = (checkAndRecordIp log' ip max now).2 := by
  unfold checkAndRecordIp
  cases hlocal : isLocalIp ip with
  | true => exact ⟨h, rfl⟩
  | false =>
    have hget : log.get? ip = log'.get? ip := JsMap.get?_eq_of_restrict_eq h (hip hlocal)
    simp only [Bool.false_eq_true, if_false, hget]
    split
    · exact ⟨JsMap.restrict_set_congr h ip _, rfl⟩
    · split
      · exact ⟨JsMap.restrict_set_congr h ip _, rfl⟩
      · split
        · exact ⟨h, rfl⟩
        · exact ⟨JsMap.restrict_set_congr h ip _, rfl⟩

end Addresses

theorem limits_of_owner {owner : SharedKey → Option Network} {n : Network}
    {key : String → SharedKey} {ip : String} (h : ∀ k ∈ addressKeys key ip, owner k = some n)
    (hip : isLocalIp ip = false) : limits owner n key ip = true := by
  have hkey : key ip ∈ addressKeys key ip := by simp [addressKeys, hip]
  simp [limits, owns, hip, h _ hkey]

theorem limits_other {owner : SharedKey → Option Network} {n m : Network}
    {key : String → SharedKey} {ip : String} (h : ∀ k ∈ addressKeys key ip, owner k = some m)
    (hmn : m ≠ n) : limits owner n key ip = false := by
  cases hip : isLocalIp ip with
  | true => simp [limits, hip]
  | false =>
    have hkey : key ip ∈ addressKeys key ip := by simp [addressKeys, hip]
    simp [limits, owns, h _ hkey, hmn]

/-! ## The gate -/

/-- A name and its account are keys of one network. -/
def NamesOwned (owner : SharedKey → Option Network) (names : JsMap String UsernameClaim) : Prop :=
  ∀ username claim, names.get? username = some claim →
    ∃ network, owner (.username username) = some network ∧
      owner (.account claim.accountId) = some network

/-- The keys of a claim are those of its network. -/
structure Claims (owner : SharedKey → Option Network) (network : Network) (accountId : Hex)
    (username : String) : Prop where
  account : owner (.account accountId) = some network
  username : username ≠ "" → owner (.username username) = some network

/-- Sessions and claims, provisional and attested ones, stand under keys of the network that
they came from, and operators are accounts that claimed. -/
structure GateOwned (owner : SharedKey → Option Network) (g : Relay F) : Prop where
  sessions : ∀ challengeId session, g.sessions.get? challengeId = some session →
    ∃ network, owner (.session challengeId) = some network
  uses : ∀ accountId use, g.pendingFaceUses.get? accountId = some use →
    Claims owner use.network accountId use.username
  names : NamesOwned owner g.usernameRegistry
  operators : ∀ accountId ∈ g.operators, ∃ network, owner (.account accountId) = some network

section Gate

variable {owner : SharedKey → Option Network} {n : Network} {g g' : Relay F}

theorem owns_of_owner {key : String → SharedKey} {k : String} (h : owner (key k) = some n) :
    owns owner n key k = true := by
  simp [owns, h]

theorem owns_other {m : Network} {key : String → SharedKey} {k : String}
    (h : owner (key k) = some m) (hmn : m ≠ n) : owns owner n key k = false := by
  simp [owns, h, hmn]

theorem recordIpVerification_alike {p : String → Bool}
    (h : g.ipVerifyLog.restrict p = g'.ipVerifyLog.restrict p) (ip : String) (now : Int) :
    (g.recordIpVerification ip now).ipVerifyLog.restrict p =
      (g'.recordIpVerification ip now).ipVerifyLog.restrict p := by
  cases hp : p ip with
  | true =>
    have hget : g.ipVerifyLog.get? ip = g'.ipVerifyLog.get? ip :=
      JsMap.get?_eq_of_restrict_eq h hp
    unfold Relay.recordIpVerification
    rw [hget]
    exact JsMap.restrict_set_congr h ip _
  | false =>
    exact (JsMap.restrict_set_of_not_mem hp _).trans
      (h.trans (JsMap.restrict_set_of_not_mem hp _).symm)

theorem checkIpLimit_alike (h : GateAlike owner n g g') {ip : String}
    (hip : isLocalIp ip = false → limits owner n .verifier ip = true) (network : Network)
    (now : Int) : g.checkIpLimit ip network now = g'.checkIpLimit ip network now := by
  unfold Relay.checkIpLimit
  cases hlocal : isLocalIp ip with
  | true => rfl
  | false =>
    have hget : g.ipVerifyLog.get? ip = g'.ipVerifyLog.get? ip :=
      JsMap.get?_eq_of_restrict_eq h.verifiers (hip hlocal)
    simp only [hget]

theorem spend_other {challengeId : String} (hnot : owns owner n .session challengeId = false) :
    (g.spend challengeId).sessions.restrict (owns owner n .session) =
      g.sessions.restrict (owns owner n .session) := by
  unfold Relay.spend
  dsimp only
  split
  · exact JsMap.restrict_set_of_not_mem hnot _
  · rfl

theorem spend_alike (h : GateAlike owner n g g') (challengeId : String) :
    (g.spend challengeId).sessions.restrict (owns owner n .session) =
      (g'.spend challengeId).sessions.restrict (owns owner n .session) := by
  cases hkey : owns owner n .session challengeId with
  | true =>
    have hget : g.sessions.get? challengeId = g'.sessions.get? challengeId :=
      JsMap.get?_eq_of_restrict_eq h.sessions hkey
    unfold Relay.spend
    dsimp only
    rw [hget]
    split
    · exact JsMap.restrict_set_congr h.sessions _ _
    · exact h.sessions
  | false => rw [spend_other hkey, spend_other hkey, h.sessions]

theorem spend_owned (h : GateOwned owner g) (challengeId : String) : ∀ other session,
    (g.spend challengeId).sessions.get? other = some session →
      ∃ network, owner (.session other) = some network := by
  intro other session hget
  rw [Relay.get?_spend] at hget
  split at hget
  · next hsame =>
      obtain ⟨spent, hspent, -⟩ := Option.map_eq_some_iff.mp hget
      exact hsame ▸ h.sessions challengeId spent hspent
  · exact h.sessions other session hget

section Challenge

variable {ip challengeId : String} {left : Bool} {now : Int}

theorem challenge_alike (h : GateAlike owner n g g')
    (hip : isLocalIp ip = false → limits owner n .verifier ip = true) (network : Network) :
    GateAlike owner n (g.challenge ip network challengeId left now).1
      (g'.challenge ip network challengeId left now).1 := by
  unfold Relay.challenge
  rw [checkIpLimit_alike h hip]
  split
  · exact h
  · exact ⟨JsMap.restrict_set_congr h.sessions _ _, h.faces, h.uses, h.names, h.verifiers⟩

theorem challenge_other {network : Network} (hnetwork : network ≠ n)
    (hsession : owner (.session challengeId) = some network) :
    GateAlike owner n (g.challenge ip network challengeId left now).1 g := by
  unfold Relay.challenge
  split
  · exact GateAlike.refl g
  · exact ⟨JsMap.restrict_set_of_not_mem (owns_other hsession hnetwork) _, rfl, rfl, rfl, rfl⟩

theorem challenge_owned (h : GateOwned owner g) {network : Network}
    (hsession : owner (.session challengeId) = some network) :
    GateOwned owner (g.challenge ip network challengeId left now).1 := by
  unfold Relay.challenge
  split
  · exact h
  · refine ⟨fun other session hget => ?_, h.uses, h.names, h.operators⟩
    dsimp only [Relay.addSession] at hget
    rw [JsMap.get?_set] at hget
    split at hget
    · next hsame => exact ⟨network, hsame ▸ hsession⟩
    · exact h.sessions other session hget

end Challenge

section Commit

variable [JsNumber F] {req : VerifyRequest F} (P : Primitives F) (cfg : RelayConfig F)
  (accountId : Hex) (descriptor : List F) (uuid : String) (now : Int)

/-- A verify request of the network does the same to what the network sees, and is answered in
the same way. -/
theorem commit_alike (h : GateAlike owner n g g') (hnetwork : req.network = n)
    (hip : isLocalIp req.ip = false → limits owner n .verifier req.ip = true)
    (hname : req.username ≠ "" → owner (.username req.username) = some n) :
    GateAlike owner n (Relay.commit P cfg g req accountId descriptor uuid now).1
        (Relay.commit P cfg g' req accountId descriptor uuid now).1 ∧
      (Relay.commit P cfg g req accountId descriptor uuid now).2 =
        (Relay.commit P cfg g' req accountId descriptor uuid now).2 := by
  have hlimit := checkIpLimit_alike h hip req.network now
  have hcount : g.faceCount descriptor req.network = g'.faceCount descriptor req.network := by
    rw [hnetwork, ← Relay.faceCount_facesOf, h.faces, Relay.faceCount_facesOf]
  have hnid : Relay.nidOf (Relay.findMatchingFace g.faceDescriptorDB descriptor req.network)
      uuid = Relay.nidOf (Relay.findMatchingFace g'.faceDescriptorDB descriptor req.network)
      uuid := by
    rw [hnetwork, ← Relay.nidOf_facesOf, h.faces, Relay.nidOf_facesOf]
  have hget : req.username ≠ "" →
      g.usernameRegistry.get? req.username = g'.usernameRegistry.get? req.username := fun hne =>
    JsMap.get?_eq_of_restrict_eq h.names (owns_of_owner (hname hne))
  have htaken : ∀ nid, (req.username ≠ "" ∧ (g.usernameRegistry.get? req.username).any
      (fun existing => existing.nid ≠ "" && existing.nid ≠ nid) = true) =
      (req.username ≠ "" ∧ (g'.usernameRegistry.get? req.username).any
      (fun existing => existing.nid ≠ "" && existing.nid ≠ nid) = true) := fun nid =>
    propext (and_congr_right fun hne => by rw [hget hne])
  unfold Relay.commit
  simp only [hlimit, hcount, hnid, htaken]
  split
  · exact ⟨h, rfl⟩
  split
  · exact ⟨h, rfl⟩
  split
  · exact ⟨h, rfl⟩
  split
  · refine ⟨⟨h.sessions, ?_, h.uses, h.names, h.verifiers⟩, rfl⟩
    dsimp only
    rw [hnetwork, Relay.nameFace_facesOf, Relay.nameFace_facesOf, h.faces]
  · refine ⟨⟨spend_alike h req.challengeId, ?_, h.uses, h.names, ?_⟩, rfl⟩
    · dsimp only
      rw [hnetwork, Relay.takeSlot_facesOf, Relay.takeSlot_facesOf, h.faces]
    · have hspent : (g.spend req.challengeId).ipVerifyLog.restrict (limits owner n .verifier) =
          (g'.spend req.challengeId).ipVerifyLog.restrict (limits owner n .verifier) :=
        h.verifiers
      exact recordIpVerification_alike hspent req.ip now

theorem commit_other (hnetwork : req.network ≠ n)
    (hsession : owns owner n .session req.challengeId = false)
    (hip : limits owner n .verifier req.ip = false) :
    GateAlike owner n (Relay.commit P cfg g req accountId descriptor uuid now).1 g := by
  rcases g.commit_cases P cfg req accountId descriptor uuid now with
    ⟨db, status, message, hdb, heq⟩ | ⟨-, heq⟩
  · rw [heq]
    refine ⟨rfl, ?_, rfl, rfl, rfl⟩
    rcases hdb with rfl | rfl
    · rfl
    · exact Relay.nameFace_facesOf_other hnetwork _
  · rw [heq]
    exact ⟨spend_other hsession, Relay.takeSlot_facesOf_other hnetwork _, rfl, rfl,
      JsMap.restrict_set_of_not_mem hip _⟩

theorem commit_owned (h : GateOwned owner g) :
    GateOwned owner (Relay.commit P cfg g req accountId descriptor uuid now).1 := by
  rcases g.commit_cases P cfg req accountId descriptor uuid now with
    ⟨db, status, message, -, heq⟩ | ⟨-, heq⟩
  · rw [heq]
    exact ⟨h.sessions, h.uses, h.names, h.operators⟩
  · rw [heq]
    exact ⟨spend_owned h req.challengeId, h.uses, h.names, h.operators⟩

theorem commit_frame {frame : VerifyFrame F}
    (h : (Relay.commit P cfg g req accountId descriptor uuid now).2.toOption = some frame) :
    ∃ nid faceCount, frame = .saving req accountId nid faceCount := by
  rcases g.commit_cases P cfg req accountId descriptor uuid now with
    ⟨db, status, message, -, heq⟩ | ⟨-, heq⟩
  · rw [heq] at h
    cases h
  · rw [heq] at h
    cases h
    exact ⟨_, _, rfl⟩

end Commit

/-! ## Claims that are held and given back -/

section Attest

variable {P : Primitives F} {cfg : RelayConfig F} {req : VerifyRequest F} {accountId : Hex}
  {nid : String} {faceCount : Nat} {now : Int}

theorem attestClaim_alike (h : GateAlike owner n g g') :
    GateAlike owner n (Relay.attest P cfg g req accountId nid faceCount now).1
      (Relay.attest P cfg g' req accountId nid faceCount now).1 := by
  unfold Relay.attest
  dsimp only
  split
  · exact h
  · refine ⟨h.sessions, h.faces, JsMap.restrict_set_congr h.uses _ _, ?_, h.verifiers⟩
    dsimp only [Relay.recordOperator]
    split
    · exact h.names
    · exact JsMap.restrict_set_congr h.names _ _

theorem attestClaim_other {m : Network} (hmn : m ≠ n)
    (hkeys : Claims owner m accountId req.username) :
    GateAlike owner n (Relay.attest P cfg g req accountId nid faceCount now).1 g := by
  rcases g.attest_cases P cfg req accountId nid faceCount now with heq | ⟨_, _, heq⟩
  · rw [heq]
    exact GateAlike.refl g
  · rw [heq]
    refine ⟨rfl, rfl, JsMap.restrict_set_of_not_mem (owns_other hkeys.account hmn) _, ?_, rfl⟩
    dsimp only [Relay.attested, Relay.recordOperator]
    split
    · rfl
    · next hne =>
        exact JsMap.restrict_set_of_not_mem (owns_other (hkeys.username hne) hmn) _

theorem attestClaim_owned (h : GateOwned owner g)
    (hkeys : Claims owner req.network accountId req.username) :
    GateOwned owner (Relay.attest P cfg g req accountId nid faceCount now).1 := by
  rcases g.attest_cases P cfg req accountId nid faceCount now with heq | ⟨_, _, heq⟩
  · rw [heq]
    exact h
  · rw [heq]
    refine ⟨h.sessions, ?_, ?_, ?_⟩
    · intro other use hget
      dsimp only [Relay.attested, Relay.recordOperator] at hget
      rw [JsMap.get?_set] at hget
      split at hget
      · next hsame =>
          cases hget
          exact hsame ▸ hkeys
      · exact h.uses other use hget
    · intro username claim hget
      dsimp only [Relay.attested, Relay.recordOperator] at hget
      split at hget
      · exact h.names username claim hget
      · next hne =>
          rw [JsMap.get?_set] at hget
          split at hget
          · next hsame =>
              cases hget
              exact ⟨req.network, hsame ▸ hkeys.username hne, hkeys.account⟩
          · exact h.names username claim hget
    · intro operator hmem
      dsimp only [Relay.attested, Relay.recordOperator] at hmem
      split at hmem
      · exact h.operators operator hmem
      · rcases List.mem_append.mp hmem with hmem | hmem
        · exact h.operators operator hmem
        · rw [List.mem_singleton.mp hmem]
          exact ⟨req.network, hkeys.account⟩

end Attest

section Release

variable {now : Int} {entry : Hex × FaceUse}

theorem releaseUse_alike (h : GateAlike owner n g g')
    (hkeys : Claims owner entry.2.network entry.1 entry.2.username)
    (hnetwork : entry.2.network = n) :
    GateAlike owner n (Relay.releaseUse now g entry) (Relay.releaseUse now g' entry) := by
  obtain ⟨accountId, use⟩ := entry
  have hget : use.username ≠ "" →
      g.usernameRegistry.get? use.username = g'.usernameRegistry.get? use.username := fun hne =>
    JsMap.get?_eq_of_restrict_eq h.names (owns_of_owner (hnetwork ▸ hkeys.username hne))
  have hheld : (use.username ≠ "" ∧ (g.usernameRegistry.get? use.username).any
      (fun claim => claim.accountId = accountId) = true) =
      (use.username ≠ "" ∧ (g'.usernameRegistry.get? use.username).any
      (fun claim => claim.accountId = accountId) = true) :=
    propext (and_congr_right fun hne => by rw [hget hne])
  unfold Relay.releaseUse
  simp only [hheld]
  split
  · exact h
  · refine ⟨h.sessions, ?_, JsMap.restrict_delete_congr h.uses _, ?_, h.verifiers⟩
    · dsimp only at hnetwork ⊢
      rw [hnetwork, Relay.releaseSlot_facesOf, Relay.releaseSlot_facesOf, h.faces]
    · dsimp only
      split
      · exact JsMap.restrict_delete_congr h.names _
      · exact h.names

theorem releaseUse_other (hkeys : Claims owner entry.2.network entry.1 entry.2.username)
    (hnetwork : entry.2.network ≠ n) :
    GateAlike owner n (Relay.releaseUse now g entry) g := by
  obtain ⟨accountId, use⟩ := entry
  unfold Relay.releaseUse
  dsimp only
  split
  · exact GateAlike.refl g
  · refine ⟨rfl, Relay.releaseSlot_facesOf_other hnetwork _,
      JsMap.restrict_delete_of_not_mem (owns_other hkeys.account hnetwork), ?_, rfl⟩
    dsimp only
    split
    · next hheld =>
        exact JsMap.restrict_delete_of_not_mem (owns_other (hkeys.username hheld.1) hnetwork)
    · rfl

theorem releaseUse_owned (h : GateOwned owner g) :
    GateOwned owner (Relay.releaseUse now g entry) := by
  obtain ⟨accountId, use⟩ := entry
  unfold Relay.releaseUse
  dsimp only
  split
  · exact h
  · refine ⟨h.sessions,
      fun other use' hget => h.uses other use' (JsMap.get?_of_get?_delete hget).2,
      fun username claim hget => ?_, h.operators⟩
    dsimp only at hget
    split at hget
    · exact h.names username claim (JsMap.get?_of_get?_delete hget).2
    · exact h.names username claim hget

theorem GateOwned.claims (h : GateOwned owner g) {entry : Hex × FaceUse}
    (hmem : entry ∈ g.pendingFaceUses.entries) :
    Claims owner entry.2.network entry.1 entry.2.username := by
  have hget := (g.pendingFaceUses.get?_eq_some_iff entry.1 entry.2).mpr hmem
  exact h.uses entry.1 entry.2 hget

theorem releaseStale_owned (h : GateOwned owner g) :
    GateOwned owner (g.releaseStaleFaceUses now) := by
  have hrun : g.releaseStaleFaceUses now =
      Run.final (Relay.releaseUse now) g g.pendingFaceUses.entries := rfl
  rw [hrun]
  exact Run.invariant_final (C := fun _ _ => True) (fun _ _ hg _ => releaseUse_owned hg) h
    (Run.stepsMeet_of_forall (fun _ _ => trivial) _ _)

/-- The timer does the same to what a network sees, whatever the other network has pending. -/
theorem releaseStale_alike (h : GateAlike owner n g g') (hg : GateOwned owner g)
    (hg' : GateOwned owner g') :
    GateAlike owner n (g.releaseStaleFaceUses now) (g'.releaseStaleFaceUses now) := by
  have howns : ∀ entry : Hex × FaceUse, Claims owner entry.2.network entry.1 entry.2.username →
      owns owner n .account entry.1 = decide (entry.2.network = n) := by
    intro entry hkeys
    simp [owns, hkeys.account]
  have hrun : ∀ g : Relay F, g.releaseStaleFaceUses now =
      Run.final (Relay.releaseUse now) g g.pendingFaceUses.entries := fun _ => rfl
  rw [hrun, hrun]
  refine Run.alike_final (I := fun _ => True)
    (C := fun entry => Claims owner entry.2.network entry.1 entry.2.username)
    (p := fun entry => owns owner n .account entry.1)
    ⟨GateAlike.refl, GateAlike.symm, GateAlike.trans⟩ (fun _ _ _ _ => trivial) ?_ ?_ trivial
    trivial h (fun _ hmem => hg.claims hmem) (fun _ hmem => hg'.claims hmem) ?_
  · intro s t entry _ _ hkeys hmine hst
    rw [howns entry hkeys] at hmine
    exact releaseUse_alike hst hkeys (by simpa using hmine)
  · intro s t entry _ hkeys hother hst
    rw [howns entry hkeys] at hother
    exact (releaseUse_other hkeys (by simpa using hother)).trans hst
  · exact congrArg JsMap.entries h.uses

end Release

end Gate

/-! ## The key blobs -/

section Blobs

open KeyBlobRelay

variable [JsNumber F] {T : JsText F} {owner : SharedKey → Option Network} {n : Network}
  {b b' : KeyBlobRelay F}

/-- A blob stands under a key of the network that it came from. -/
def BlobsOwned (owner : SharedKey → Option Network) (b : KeyBlobRelay F) : Prop :=
  ∀ pub row, b.keyBlobStore.get? pub = some row → owner (.blob pub) = some row.network

omit [JsNumber F] in
theorem blobAccount_eq {body : Json F} {blob : Json F} {pub : String}
    (hblob : postedBlob body = some blob) (hpub : Json.asString (blob.property "pub") = some pub) :
    blobAccount (.ok body) = some pub := by
  rw [blobAccount, hblob]
  exact hpub

theorem archiveKeyBlob_alike (h : BlobsAlike owner n b b') {blob : Json F}
    (hkey : ∀ pub, Json.asString (blob.property "pub") = some pub →
      owner (.blob pub) = some n) (network : Network) :
    (b.archiveKeyBlob T blob network = none ∧ b'.archiveKeyBlob T blob network = none) ∨
      ∃ c c', b.archiveKeyBlob T blob network = some c ∧
        b'.archiveKeyBlob T blob network = some c' ∧ BlobsAlike owner n c c' := by
  unfold KeyBlobRelay.archiveKeyBlob
  rw [h.archiveEnabled]
  split
  · exact .inr ⟨b, b', rfl, rfl, h⟩
  · cases hpub : Json.asString (blob.property "pub") with
    | none => exact .inr ⟨b, b', rfl, rfl, h⟩
    | some pub =>
      have hget : b.keyBlobStore.get? pub = b'.keyBlobStore.get? pub :=
        JsMap.get?_eq_of_restrict_eq h.keyBlobs (owns_of_owner (hkey pub hpub))
      have hset := JsMap.restrict_set_congr h.keyBlobs pub ⟨network, blob.without "network"⟩
      simp only [hget]
      split
      · exact .inr ⟨_, _, rfl, rfl, ⟨rfl, hset, h.fetchers⟩⟩
      · split
        · split
          · exact .inr ⟨_, _, rfl, rfl, h⟩
          · exact .inr ⟨_, _, rfl, rfl, ⟨rfl, hset, h.fetchers⟩⟩
        · exact .inl ⟨rfl, rfl⟩

theorem postKeyBlob_alike (h : BlobsAlike owner n b b') {req : KeyBlobPost F}
    (hip : isLocalIp req.ip = false → limits owner n .fetcher req.ip = true)
    (hkey : ∀ pub, blobAccount req.body = some pub → owner (.blob pub) = some n) (now : Int) :
    BlobsAlike owner n (b.postKeyBlob T req now).1 (b'.postKeyBlob T req now).1 := by
  obtain ⟨hlog, hallowed⟩ := checkAndRecordIp_alike h.fetchers hip BLOB_IP_MAX_PER_DAY now
  have hcounted : BlobsAlike owner n
      { b with ipBlobLog := (checkAndRecordIp b.ipBlobLog req.ip BLOB_IP_MAX_PER_DAY now).1 }
      { b' with ipBlobLog := (checkAndRecordIp b'.ipBlobLog req.ip BLOB_IP_MAX_PER_DAY now).1 } :=
    ⟨h.archiveEnabled, h.keyBlobs, hlog⟩
  unfold postKeyBlob
  simp only [hallowed]
  split
  · exact hcounted
  · cases hbody : req.body with
    | error message => exact hcounted
    | ok body =>
      simp only
      cases hblob : postedBlob body with
      | none => exact hcounted
      | some blob =>
        have hpub : ∀ pub, Json.asString (blob.property "pub") = some pub →
            owner (.blob pub) = some n := fun pub hpub =>
          hkey pub (by rw [hbody]; exact blobAccount_eq hblob hpub)
        simp only
        rcases archiveKeyBlob_alike (T := T) hcounted hpub req.network with
          ⟨hnone, hnone'⟩ | ⟨c, c', hc, hc', hcc'⟩
        · simp only [hnone, hnone']
          exact hcounted
        · simp only [hc, hc']
          exact hcc'

theorem postKeyBlob_other {m : Network} (hmn : m ≠ n) {req : KeyBlobPost F}
    (hip : limits owner n .fetcher req.ip = false)
    (hkey : ∀ pub, blobAccount req.body = some pub → owner (.blob pub) = some m) (now : Int) :
    BlobsAlike owner n (b.postKeyBlob T req now).1 b := by
  have hlog : (checkAndRecordIp b.ipBlobLog req.ip BLOB_IP_MAX_PER_DAY now).1.restrict
      (limits owner n .fetcher) = b.ipBlobLog.restrict (limits owner n .fetcher) :=
    checkAndRecordIp_other hip BLOB_IP_MAX_PER_DAY now
  rcases b.postKeyBlob_cases T req now with
    ⟨log, heq, rfl⟩ | ⟨body, blob, pub, -, hbody, hblob, -, hpub, heq⟩
  · rw [heq]
    exact ⟨rfl, rfl, hlog⟩
  · have howner := hkey pub (by rw [hbody]; exact blobAccount_eq hblob hpub)
    rw [heq]
    exact ⟨rfl, JsMap.restrict_set_of_not_mem (owns_other howner hmn) _, hlog⟩

theorem postKeyBlob_owned (h : BlobsOwned owner b) {req : KeyBlobPost F}
    (hkey : ∀ pub, blobAccount req.body = some pub → owner (.blob pub) = some req.network)
    (now : Int) : BlobsOwned owner (b.postKeyBlob T req now).1 := by
  rcases b.postKeyBlob_cases T req now with
    ⟨log, heq, -⟩ | ⟨body, blob, pub, -, hbody, hblob, -, hpub, heq⟩
  · rw [heq]
    exact h
  · have howner := hkey pub (by rw [hbody]; exact blobAccount_eq hblob hpub)
    rw [heq]
    intro other row hget
    dsimp only at hget
    rw [JsMap.get?_set] at hget
    split at hget
    · next hsame =>
        cases hget
        exact hsame ▸ howner
    · exact h other row hget

theorem getKeyBlob_fst (b : KeyBlobRelay F) (req : KeyBlobGet) (now : Int) :
    (b.getKeyBlob T req now).1 =
      { b with ipBlobLog := (checkAndRecordIp b.ipBlobLog req.ip BLOB_IP_MAX_PER_DAY now).1 } := by
  unfold getKeyBlob
  simp only
  split
  · rfl
  · split <;> rfl

variable {req : KeyBlobGet}

theorem getKeyBlob_alike (h : BlobsAlike owner n b b')
    (hip : isLocalIp req.ip = false → limits owner n .fetcher req.ip = true) (now : Int) :
    BlobsAlike owner n (b.getKeyBlob T req now).1 (b'.getKeyBlob T req now).1 := by
  rw [getKeyBlob_fst, getKeyBlob_fst]
  exact ⟨h.archiveEnabled, h.keyBlobs,
    (checkAndRecordIp_alike h.fetchers hip BLOB_IP_MAX_PER_DAY now).1⟩

theorem getKeyBlob_other (hip : limits owner n .fetcher req.ip = false)
    (now : Int) : BlobsAlike owner n (b.getKeyBlob T req now).1 b := by
  rw [getKeyBlob_fst]
  exact ⟨rfl, rfl, checkAndRecordIp_other hip BLOB_IP_MAX_PER_DAY now⟩

theorem contest_owned (h : BlobsOwned owner b) (hnetwork : req.network = n) :
    Contest.contest (newerBlob T) (KeyBlobRelay.asked T req) none b.keyBlobStore.values =
      Contest.contest (newerBlob T) (KeyBlobRelay.asked T req) none
        (b.keyBlobStore.restrict (owns owner n .blob)).values := by
  have hmark : ∀ pub row, b.keyBlobStore.get? pub = some row →
      decide (row.network = n) = owns owner n .blob pub := by
    intro pub row hget
    simp [owns, h pub row hget]
  rw [← JsMap.values_filter_eq hmark]
  refine Contest.contest_filter fun row _ hother => ?_
  unfold KeyBlobRelay.asked
  rw [if_pos]
  rw [hnetwork]
  simpa using hother

theorem getKeyBlob_answer (h : BlobsAlike owner n b b') (hb : BlobsOwned owner b)
    (hb' : BlobsOwned owner b') (hnetwork : req.network = n)
    (hip : isLocalIp req.ip = false → limits owner n .fetcher req.ip = true) (now : Int) :
    (b.getKeyBlob T req now).2 = (b'.getKeyBlob T req now).2 := by
  obtain ⟨-, hallowed⟩ := checkAndRecordIp_alike h.fetchers hip BLOB_IP_MAX_PER_DAY now
  unfold getKeyBlob
  simp only [hallowed, contest_owned hb hnetwork, contest_owned hb' hnetwork, h.keyBlobs]
  split
  · rfl
  · split <;> rfl

end Blobs

/-! ## The account records -/

section Accounts

theorem keyOf_accountKey (n m : Network) (pub : String) :
    keyOf n (accountKey m pub) = decide (m = n) := by
  unfold keyOf accountKey
  cases n <;> cases m <;> simp [Network.name, String.toList_append, List.isPrefixOf]

theorem accountKey_inj {n : Network} {pub pub' : String}
    (h : accountKey n pub = accountKey n pub') : pub = pub' := by
  have hlist := congrArg String.toList h
  simp only [accountKey, String.toList_append] at hlist
  exact String.toList_inj.mp (List.append_cancel_left hlist)

/-- A record stands under its network, and its account has claimed on no other one. -/
def AccountsOwned (owner : SharedKey → Option Network)
    (accountStore : JsMap String (AccountRow F)) : Prop :=
  ∀ key row, accountStore.get? key = some row → ∃ pub, key = accountKey row.network pub ∧
    (owner (.account pub) = none ∨ owner (.account pub) = some row.network)

variable {owner : SharedKey → Option Network} {n : Network}
  {accountStore accountStore' : JsMap String (AccountRow F)}

theorem AccountsOwned.marks (h : AccountsOwned owner accountStore) (n : Network) :
    ∀ key row, accountStore.get? key = some row → decide (row.network = n) = keyOf n key := by
  intro key row hget
  obtain ⟨pub, rfl, -⟩ := h key row hget
  exact (keyOf_accountKey n row.network pub).symm

variable [JsNumber F] {P : Primitives F} {T : JsText F} {acc : Json F}

theorem archiveAccountRecord_alike
    (h : accountStore.restrict (keyOf n) = accountStore'.restrict (keyOf n)) :
    (archiveAccountRecord P T accountStore acc n).restrict (keyOf n) =
      (archiveAccountRecord P T accountStore' acc n).restrict (keyOf n) := by
  unfold archiveAccountRecord
  split
  · exact h
  · split
    · exact h
    · split
      · exact h
      · next pub _ =>
          have hin : keyOf n (accountKey n pub) = true := by simp [keyOf_accountKey]
          have hget : accountStore.get? (accountKey n pub) =
              accountStore'.get? (accountKey n pub) := JsMap.get?_eq_of_restrict_eq h hin
          simp only [hget]
          split
          · exact h
          · exact JsMap.restrict_set_congr h _ _

theorem archiveAccountRecord_cases (P : Primitives F) (T : JsText F)
    (accountStore : JsMap String (AccountRow F)) (acc : Json F) (network : Network) :
    archiveAccountRecord P T accountStore acc network = accountStore ∨
      ∃ pub, verifyAccountRecordSig P acc = true ∧ Json.written (acc.property "pub") = some pub ∧
        archiveAccountRecord P T accountStore acc network =
          accountStore.set (accountKey network pub) ⟨network, acc⟩ := by
  unfold archiveAccountRecord
  split
  · exact .inl rfl
  · split
    · exact .inl rfl
    · next hverify =>
        split
        · exact .inl rfl
        · next pub hpub =>
            dsimp only
            split
            · exact .inl rfl
            · exact .inr ⟨pub, by simpa using hverify, hpub, rfl⟩

theorem archiveAccountRecord_other {m : Network} (hmn : m ≠ n) :
    (archiveAccountRecord P T accountStore acc m).restrict (keyOf n) =
      accountStore.restrict (keyOf n) := by
  rcases archiveAccountRecord_cases P T accountStore acc m with heq | ⟨pub, -, -, heq⟩
  · rw [heq]
  · rw [heq]
    exact JsMap.restrict_set_of_not_mem (by simp [keyOf_accountKey, hmn]) _

section

variable (h : AccountsOwned owner accountStore)
include h

theorem archiveAccountRecord_owned {m : Network}
    (hkey : ∀ pub, verifyAccountRecordSig P acc = true →
      Json.written (acc.property "pub") = some pub →
      owner (.account pub) = none ∨ owner (.account pub) = some m) :
    AccountsOwned owner (archiveAccountRecord P T accountStore acc m) := by
  rcases archiveAccountRecord_cases P T accountStore acc m with heq | ⟨pub, hverify, hpub, heq⟩
  · rw [heq]
    exact h
  · rw [heq]
    intro key row hget
    rw [JsMap.get?_set] at hget
    split at hget
    · next hsame =>
        cases hget
        exact ⟨pub, hsame.symm, hkey pub hverify hpub⟩
    · exact h key row hget

theorem scanForName_owned (n : Network) (uname : String) :
    scanForName T accountStore n uname =
      (accountStore.restrict (keyOf n)).values.find? fun row =>
        decide (usernameOf T row.record = some uname) := by
  rw [← JsMap.values_filter_eq (h.marks n), List.find?_filter]
  unfold scanForName
  congr 1
  funext row
  simp

omit [JsNumber F] in
theorem AccountsOwned.get?_elsewhere {accountId : Hex}
    {m : Network} (howner : owner (.account accountId) = some m) (hmn : m ≠ n) :
    accountStore.get? (accountKey n accountId) = none := by
  cases hrow : accountStore.get? (accountKey n accountId) with
  | none => rfl
  | some row =>
    have hnetwork : row.network = n := by
      have hmark := h.marks n _ row hrow
      rw [keyOf_accountKey] at hmark
      simpa using hmark
    obtain ⟨pub, hkey, hpub⟩ := h _ row hrow
    rw [hnetwork] at hkey hpub
    rw [← accountKey_inj hkey, howner] at hpub
    rcases hpub with hnone | hsame
    · cases hnone
    · exact absurd (Option.some.inj hsame) hmn

omit [JsNumber F] in
theorem AccountsOwned.attested_elsewhere
    {names : JsMap String UsernameClaim} (hnames : NamesOwned owner names) {uname : String}
    (hother : owns owner n .username uname = false) : ((names.get? uname).bind fun claim =>
      if claim.accountId = "" then none
      else accountStore.get? (accountKey n claim.accountId)) = none := by
  cases hclaim : names.get? uname with
  | none => rfl
  | some claim =>
    obtain ⟨m, hname, haccount⟩ := hnames uname claim hclaim
    have hmn : m ≠ n := by
      rintro rfl
      rw [owns_of_owner hname] at hother
      cases hother
    simp only [Option.bind_some]
    split
    · rfl
    · exact h.get?_elsewhere haccount hmn

end

theorem resolve_alike {names names' : JsMap String UsernameClaim}
    (haccounts : accountStore.restrict (keyOf n) = accountStore'.restrict (keyOf n))
    (hnames : names.restrict (owns owner n .username) =
      names'.restrict (owns owner n .username))
    (h : AccountsOwned owner accountStore) (h' : AccountsOwned owner accountStore')
    (hclaims : NamesOwned owner names) (hclaims' : NamesOwned owner names')
    (query : ResolveQuery) :
    DirectoryRelay.resolve T ⟨accountStore, names⟩ n query =
      DirectoryRelay.resolve T ⟨accountStore', names'⟩ n query := by
  have hget (pub : String) : accountStore.get? (accountKey n pub) =
      accountStore'.get? (accountKey n pub) :=
    JsMap.get?_eq_of_restrict_eq haccounts (by simp [keyOf_accountKey])
  unfold DirectoryRelay.resolve
  cases query with
  | pub pub =>
    dsimp only
    rw [hget]
  | username username =>
    simp only [scanForName_owned h, scanForName_owned h', haccounts]
    cases howns : owns owner n .username (T.canonical username) with
    | true => simp only [JsMap.get?_eq_of_restrict_eq hnames howns, hget]
    | false =>
      rw [h.attested_elsewhere hclaims howns, h'.attested_elsewhere hclaims' howns]

end Accounts

end NeuronWeb.NetworkArchive
