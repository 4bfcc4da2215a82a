/-
  Relay/NetworkIsolation: when the two networks of a relay do not disturb each other.

  The answers for one network are those of a relay that the other network never reached, as long
  as nothing that the relay keys without the network is used on both (`isolated`).
-/
import NeuronWeb.Relay.SharedKeys

set_option autoImplicit false

namespace NeuronWeb.NetworkArchive

variable {F : Type}

/-! ## The invariant -/

/-- A network sees the same in two relays. -/
structure Alike (owner : SharedKey → Option Network) (n : Network) (s t : NetworkArchive F) :
    Prop where
  blocks : s.engineBlockStore.restrict (owns owner n .block) =
    t.engineBlockStore.restrict (owns owner n .block)
  accounts : s.accountStore.restrict (keyOf n) = t.accountStore.restrict (keyOf n)
  blobs : BlobsAlike owner n s.blobs t.blobs
  gate : GateAlike owner n s.gate t.gate
  handlers : s.handlers n = t.handlers n

/-- The keys of a request that has passed its first checks. -/
structure RequestKeys (owner : SharedKey → Option Network) (m : Network)
    (req : VerifyRequest F) (accountId : Hex) : Prop where
  network : req.network = m
  session : owner (.session req.challengeId) = none ∨ owner (.session req.challengeId) = some m
  address : ∀ k ∈ addressKeys .verifier req.ip, owner k = some m
  account : owner (.account accountId) = some m
  username : req.username ≠ "" → owner (.username req.username) = some m

def FrameKeys (owner : SharedKey → Option Network) (network : Network) : VerifyFrame F → Prop
  | .hashing req accountId _ => RequestKeys owner network req accountId
  | .saving req accountId _ _ => RequestKeys owner network req accountId

/-- Every entry stands under a key of the network that it came from. -/
structure Owned (owner : SharedKey → Option Network) (s : NetworkArchive F) : Prop where
  blocks : ∀ hash row, s.engineBlockStore.get? hash = some row →
    ∃ network, owner (.block hash) = some network ∧ row.network = network.name
  accounts : AccountsOwned owner s.accountStore
  blobs : BlobsOwned owner s.blobs
  gate : GateOwned owner s.gate
  handlers : ∀ network frame, some frame ∈ s.handlers network → FrameKeys owner network frame

theorem name_inj {m n : Network} (h : m.name = n.name) : m = n := by
  cases m <;> cases n <;> simp_all [Network.name]

section Steps

variable {P : Primitives F} {cfg : RelayConfig F}
  {owner : SharedKey → Option Network} {n : Network} {s t : NetworkArchive F}

theorem Alike.refl (s : NetworkArchive F) : Alike owner n s s :=
  ⟨rfl, rfl, ⟨rfl, rfl, rfl⟩, GateAlike.refl _, rfl⟩

theorem Alike.trans {u : NetworkArchive F} (h : Alike owner n s t) (h' : Alike owner n t u) :
    Alike owner n s u :=
  ⟨h.blocks.trans h'.blocks, h.accounts.trans h'.accounts,
    ⟨h.blobs.archiveEnabled.trans h'.blobs.archiveEnabled,
      h.blobs.keyBlobs.trans h'.blobs.keyBlobs, h.blobs.fetchers.trans h'.blobs.fetchers⟩,
    h.gate.trans h'.gate, h.handlers.trans h'.handlers⟩

/-! ## Blocks -/

/-- A block that is archived. -/
def Archived (P : Primitives F) (block : Option (Block F)) (b : Block F) : Prop :=
  block = some b ∧ verifyBlock P b = true

theorem archiveEngineBlock_alike (h : Alike owner n s t) {block : Option (Block F)}
    (hkey : ∀ b, Archived P block b → owner (.block b.hash) = some n) :
    Alike owner n (s.archiveEngineBlock P block n) (t.archiveEngineBlock P block n) := by
  unfold archiveEngineBlock
  cases block with
  | none => exact h
  | some b =>
    simp only [h.blobs.archiveEnabled]
    split
    · exact h
    · next hopen =>
        have hverify : verifyBlock P b = true := by
          rw [not_or] at hopen
          simpa using hopen.2
        have hhas : s.engineBlockStore.has b.hash = t.engineBlockStore.has b.hash := by
          unfold JsMap.has
          rw [JsMap.get?_eq_of_restrict_eq h.blocks (owns_of_owner (hkey b ⟨rfl, hverify⟩))]
        rw [hhas]
        split
        · exact h
        · refine ⟨JsMap.restrict_set_congr h.blocks _ _, h.accounts, h.blobs, ?_, h.handlers⟩
          dsimp only
          split
          · exact ⟨h.gate.sessions, h.gate.faces, JsMap.restrict_delete_congr h.gate.uses _,
              h.gate.names, h.gate.verifiers⟩
          · exact h.gate

/-- What a block does to the archive: nothing, or it is kept and frees a claim that its account
has made permanent. -/
theorem archiveEngineBlock_cases (P : Primitives F) (s : NetworkArchive F)
    (block : Option (Block F)) (m : Network) :
    s.archiveEngineBlock P block m = s ∨ ∃ b, Archived P block b ∧
      s.archiveEngineBlock P block m =
        { s with
          engineBlockStore := s.engineBlockStore.set b.hash
            ⟨b.hash, b.accountId, b.index, b.shard, m.name, b⟩
          gate :=
            if b.type = .open then
              { s.gate with pendingFaceUses := s.gate.pendingFaceUses.delete b.accountId }
            else s.gate } := by
  unfold archiveEngineBlock
  cases block with
  | none => exact .inl rfl
  | some b =>
    dsimp only
    split
    · exact .inl rfl
    · next hopen =>
        rw [not_or] at hopen
        split
        · exact .inl rfl
        · exact .inr ⟨b, ⟨rfl, by simpa using hopen.2⟩, rfl⟩

theorem archiveEngineBlock_other {m : Network} (hmn : m ≠ n) {block : Option (Block F)}
    (hkey : ∀ b, Archived P block b → owner (.block b.hash) = some m)
    (hclaim : ∀ b, Archived P block b → b.type = .open →
      owner (.account b.accountId) = none ∨ owner (.account b.accountId) = some m) :
    Alike owner n (s.archiveEngineBlock P block m) s := by
  rcases s.archiveEngineBlock_cases P block m with heq | ⟨b, hb, heq⟩
  · rw [heq]
    exact Alike.refl s
  · rw [heq]
    refine ⟨JsMap.restrict_set_of_not_mem (owns_other (hkey b hb) hmn) _, rfl, ⟨rfl, rfl, rfl⟩,
      ?_, rfl⟩
    dsimp only
    split
    · next htype =>
        have hother : owns owner n .account b.accountId = false := by
          rcases hclaim b hb htype with hnone | hm
          · simp [owns, hnone]
          · exact owns_other hm hmn
        exact ⟨rfl, rfl, JsMap.restrict_delete_of_not_mem hother, rfl, rfl⟩
    · exact GateAlike.refl _

theorem archiveEngineBlock_owned (h : Owned owner s) {m : Network} {block : Option (Block F)}
    (hkey : ∀ b, Archived P block b → owner (.block b.hash) = some m) :
    Owned owner (s.archiveEngineBlock P block m) := by
  rcases s.archiveEngineBlock_cases P block m with heq | ⟨b, hb, heq⟩
  · rw [heq]
    exact h
  · rw [heq]
    refine ⟨fun hash row hget => ?_, h.accounts, h.blobs, ?_, h.handlers⟩
    · dsimp only at hget
      rw [JsMap.get?_set] at hget
      split at hget
      · next hsame =>
          cases hget
          exact ⟨m, hsame ▸ hkey b hb, rfl⟩
      · exact h.blocks hash row hget
    · dsimp only
      split
      · exact ⟨h.gate.sessions, fun accountId use hget =>
          h.gate.uses accountId use (JsMap.get?_of_get?_delete hget).2, h.gate.names,
          h.gate.operators⟩
      · exact h.gate

/-! ## Verify requests -/

theorem mem_update {handlers : Network → List (Option (VerifyFrame F))} {m network : Network}
    {frames : List (Option (VerifyFrame F))} {frame : VerifyFrame F}
    (hmem : some frame ∈ Function.update handlers m frames network) :
    (network = m ∧ some frame ∈ frames) ∨ some frame ∈ handlers network := by
  by_cases hsame : network = m
  · subst hsame
    rw [Function.update_self] at hmem
    exact .inl ⟨rfl, hmem⟩
  · rw [Function.update_of_ne hsame] at hmem
    exact .inr hmem

theorem session_alike (h : Alike owner n s t) (hs : Owned owner s) (ht : Owned owner t)
    {challengeId : String} (hkey : owner (.session challengeId) = none ∨
      owner (.session challengeId) = some n) :
    s.gate.sessions.get? challengeId = t.gate.sessions.get? challengeId := by
  have hunopened : ∀ u : NetworkArchive F, Owned owner u →
      owner (.session challengeId) = none → u.gate.sessions.get? challengeId = none := by
    intro u hu hnone
    cases hget : u.gate.sessions.get? challengeId with
    | none => rfl
    | some session =>
      obtain ⟨m, hm⟩ := hu.gate.sessions challengeId session hget
      rw [hnone] at hm
      cases hm
  rcases hkey with hnone | hn
  · rw [hunopened s hs hnone, hunopened t ht hnone]
  · exact JsMap.get?_eq_of_restrict_eq h.gate.sessions (owns_of_owner hn)

theorem Owned.frame (h : Owned owner s) {m : Network} {k : Nat} {frame : VerifyFrame F}
    (hframe : (s.handlers m)[k]? = some (some frame)) : FrameKeys owner m frame :=
  h.handlers m frame (List.mem_of_getElem? hframe)

section Verify

variable [JsNumber F]

/-- The keys of a verify request are those of its network. -/
structure VerifyKeys (owner : SharedKey → Option Network) (req : VerifyRequest F) : Prop where
  session : owner (.session req.challengeId) = none ∨
    owner (.session req.challengeId) = some req.network
  address : ∀ k ∈ addressKeys .verifier req.ip, owner k = some req.network
  account : ∀ accountId, req.accountId.filter (· ≠ "") = some accountId →
    owner (.account accountId) = some req.network
  username : req.username ≠ "" → owner (.username req.username) = some req.network

variable {req : VerifyRequest F}

theorem verify_alike (h : Alike owner n s t) (hs : Owned owner s) (ht : Owned owner t)
    (hnetwork : req.network = n) (hkeys : VerifyKeys owner req)
    (now : Int) : Alike owner n (s.verify req now) (t.verify req now) := by
  unfold verify
  rw [session_alike h hs ht (hnetwork ▸ hkeys.session)]
  split
  · split
    · exact h
    · refine ⟨h.blocks, h.accounts, h.blobs, h.gate, ?_⟩
      dsimp only
      rw [hnetwork, Function.update_self, Function.update_self, h.handlers]
  · exact h

theorem verify_other (hnetwork : req.network ≠ n) (now : Int) :
    Alike owner n (s.verify req now) s := by
  unfold verify
  split
  · split
    · exact Alike.refl s
    · exact ⟨rfl, rfl, ⟨rfl, rfl, rfl⟩, GateAlike.refl _,
        Function.update_of_ne (Ne.symm hnetwork) _ _⟩
  · exact Alike.refl s

theorem verify_owned (h : Owned owner s) (hkeys : VerifyKeys owner req)
    (now : Int) : Owned owner (s.verify req now) := by
  unfold verify
  split
  · next accountId session descriptor haccount _ _ =>
      split
      · exact h
      · refine ⟨h.blocks, h.accounts, h.blobs, h.gate, fun network frame hmem => ?_⟩
        rcases mem_update hmem with ⟨rfl, hnew⟩ | hold
        · rcases List.mem_append.mp hnew with hold | hlast
          · exact h.handlers req.network frame hold
          · cases List.mem_singleton.mp hlast
            exact ⟨rfl, hkeys.session, hkeys.address, hkeys.account accountId haccount,
              hkeys.username⟩
        · exact h.handlers network frame hold
  · exact h

/-! ## The turns of the verify handlers -/

theorem resume_alike (h : Alike owner n s t) (hs : Owned owner s) (k : Nat) (uuid : String)
    (now : Int) : Alike owner n (s.resume P cfg n k uuid now) (t.resume P cfg n k uuid now) := by
  unfold resume
  rw [← h.handlers]
  split
  · next req accountId descriptor hframe =>
      have hkeys : RequestKeys owner n req accountId := hs.frame hframe
      obtain ⟨hgate, hanswer⟩ := commit_alike P cfg accountId descriptor uuid now h.gate
        hkeys.network (fun hip => limits_of_owner hkeys.address hip) hkeys.username
      refine ⟨h.blocks, h.accounts, h.blobs, hgate, ?_⟩
      dsimp only
      rw [hanswer, Function.update_self, Function.update_self]
  · refine ⟨h.blocks, h.accounts, h.blobs, attestClaim_alike h.gate, ?_⟩
    dsimp only
    rw [Function.update_self, Function.update_self]
  · exact h

theorem resume_other (h : Owned owner s) {m : Network} (hmn : m ≠ n) (k : Nat) (uuid : String)
    (now : Int) : Alike owner n (s.resume P cfg m k uuid now) s := by
  unfold resume
  split
  · next req accountId descriptor hframe =>
      have hkeys : RequestKeys owner m req accountId := h.frame hframe
      have hsession : owns owner n .session req.challengeId = false := by
        rcases hkeys.session with hnone | hm
        · simp [owns, hnone]
        · exact owns_other hm hmn
      have hgate := commit_other (g := s.gate) P cfg accountId descriptor uuid now
        (hkeys.network.symm ▸ hmn) hsession (limits_other hkeys.address hmn)
      exact ⟨rfl, rfl, ⟨rfl, rfl, rfl⟩, hgate, Function.update_of_ne (Ne.symm hmn) _ _⟩
  · next req accountId nid faceCount hframe =>
      have hkeys : RequestKeys owner m req accountId := h.frame hframe
      exact ⟨rfl, rfl, ⟨rfl, rfl, rfl⟩, attestClaim_other hmn ⟨hkeys.account, hkeys.username⟩,
        Function.update_of_ne (Ne.symm hmn) _ _⟩
  · exact Alike.refl s

theorem resume_owned (h : Owned owner s) (m : Network) (k : Nat) (uuid : String) (now : Int) :
    Owned owner (s.resume P cfg m k uuid now) := by
  unfold resume
  split
  · next req accountId descriptor hframe =>
      have hkeys : RequestKeys owner m req accountId := h.frame hframe
      refine ⟨h.blocks, h.accounts, h.blobs, commit_owned P cfg accountId descriptor uuid now
        h.gate, fun network frame hmem => ?_⟩
      rcases mem_update hmem with ⟨rfl, hnew⟩ | hold
      · rcases List.mem_or_eq_of_mem_set hnew with hold | hsome
        · exact h.handlers network frame hold
        · obtain ⟨nid, faceCount, rfl⟩ :=
            commit_frame P cfg accountId descriptor uuid now hsome.symm
          exact hkeys
      · exact h.handlers network frame hold
  · next req accountId nid faceCount hframe =>
      have hkeys : RequestKeys owner m req accountId := h.frame hframe
      refine ⟨h.blocks, h.accounts, h.blobs, attestClaim_owned h.gate
        ⟨hkeys.network.symm ▸ hkeys.account, hkeys.network.symm ▸ hkeys.username⟩,
        fun network frame hmem => ?_⟩
      rcases mem_update hmem with ⟨rfl, hnew⟩ | hold
      · rcases List.mem_or_eq_of_mem_set hnew with hold | hnone
        · exact h.handlers network frame hold
        · cases hnone
      · exact h.handlers network frame hold
  · exact h

end Verify

/-! ## Resets -/

section Inputs

variable [JsNumber F] {T : JsText F}

theorem onGeneration_eq (h : Owned owner s) {m : Json F}
    (hkey : ∀ pub, Json.asString (m.property "operatorPub") = some pub →
      owner (.account pub) = none) (network : Network) :
    s.onGeneration P T network m = s := by
  have hnone : (ResetRelay.start s.gate s.currentGeneration).authorized P T.parse network m =
      none := by
    have hoperator : (Json.asString (m.property "operatorPub")).filter (fun pub =>
        pub ≠ "" && (ResetRelay.start s.gate s.currentGeneration).relay.operators.contains pub) =
        none := by
      rw [Option.filter_eq_none_iff]
      intro pub hpub hmember
      have hmem : pub ∈ s.gate.operators := by
        simp only [ResetRelay.start, Bool.and_eq_true, List.contains_iff_mem] at hmember
        exact hmember.2
      obtain ⟨m', howner⟩ := h.gate.operators pub hmem
      rw [hkey pub hpub] at howner
      cases howner
    unfold ResetRelay.authorized
    split
    · rfl
    · split
      · rfl
      · rw [hoperator]
  unfold onGeneration
  simp only [hnone]

/-! ## One input -/

theorem Fits.block {m : Network} {block : Option (Block F)} (h : Fits P owner (.block m block))
    (b : Block F) (hb : Archived P block b) : owner (.block b.hash) = some m := by
  obtain ⟨rfl, hverify⟩ := hb
  exact h.takes _ (by simp [Input.takes, Option.filter, hverify])

theorem Fits.opened {m : Network} {block : Option (Block F)} (h : Fits P owner (.block m block))
    (b : Block F) (hb : Archived P block b) (hopen : b.type = .open) :
    owner (.account b.accountId) = none ∨ owner (.account b.accountId) = some m := by
  obtain ⟨rfl, hverify⟩ := hb
  exact h.meets _ (by simp [Input.meets, Option.filter, hverify, hopen])

theorem Fits.account {m : Network} {acc : Json F} (h : Fits P owner (.account m acc))
    (pub : String) (hverify : verifyAccountRecordSig P acc = true)
    (hpub : Json.written (acc.property "pub") = some pub) :
    owner (.account pub) = none ∨ owner (.account pub) = some m :=
  h.meets _ (by simp [Input.meets, hverify, hpub])

theorem Fits.operator {m : Network} {reset : Json F} (h : Fits P owner (.generation m reset))
    (pub : String) (hpub : Json.asString (reset.property "operatorPub") = some pub) :
    owner (.account pub) = none := by
  have hmeets := h.meets (.account pub) (by simp [Input.meets, hpub])
  exact hmeets.elim id id

variable {now : Int}

theorem Fits.poster {req : KeyBlobPost F} (h : Fits P owner (.blob req now)) :
    ∀ k ∈ addressKeys .fetcher req.ip, owner k = some req.network :=
  fun k hk => h.takes k (List.mem_append_left _ hk)

theorem Fits.posted {req : KeyBlobPost F} (h : Fits P owner (.blob req now))
    (pub : String) (hpub : blobAccount req.body = some pub) :
    owner (.blob pub) = some req.network :=
  h.takes _ (List.mem_append_right _ (by simp [hpub]))

theorem Fits.challenge {ip challengeId : String} {m : Network} {left : Bool}
    (h : Fits P owner (.challenge ip m challengeId left now)) :
    owner (.session challengeId) = some m ∧
      ∀ k ∈ addressKeys .verifier ip, owner k = some m :=
  ⟨h.takes _ List.mem_cons_self, fun k hk => h.takes k (List.mem_cons_of_mem _ hk)⟩

theorem Fits.verify {req : VerifyRequest F}
    (h : Fits P owner (.verify req now)) : VerifyKeys owner req where
  session := h.meets _ List.mem_cons_self
  address k hk := h.takes k (List.mem_append_left _ (List.mem_append_left _ hk))
  account accountId haccount :=
    h.takes _ (List.mem_append_left _ (List.mem_append_right _ (by
      rw [haccount]
      exact List.mem_singleton_self _)))
  username hne := h.takes _ (List.mem_append_right _ (by simp [hne]))

theorem Fits.asker {m : Network} {ip username pub : String}
    (h : Fits P owner (.ask m (.keyBlob ip username pub) now)) :
    ∀ k ∈ addressKeys .fetcher ip, owner k = some m :=
  fun k hk => h.takes k hk

/-- An input of a network, or the timer, does the same to what the network sees. -/
theorem step_alike (hs : Owned owner s) (ht : Owned owner t) {a : Input F}
    (hfits : Fits P owner a) (hmine : a.concerns n = true) (h : Alike owner n s t) :
    Alike owner n (s.step P cfg T a) (t.step P cfg T a) := by
  cases a with
  | block m block =>
    obtain rfl : m = n := by simpa [Input.concerns] using hmine
    exact archiveEngineBlock_alike h hfits.block
  | account m acc =>
    obtain rfl : m = n := by simpa [Input.concerns] using hmine
    show Alike owner m (s.archiveAccount P T acc m) (t.archiveAccount P T acc m)
    unfold archiveAccount
    rw [h.blobs.archiveEnabled]
    split
    · exact h
    · exact ⟨h.blocks, archiveAccountRecord_alike h.accounts, h.blobs, h.gate, h.handlers⟩
  | generation m reset =>
    show Alike owner n (s.onGeneration P T m reset) (t.onGeneration P T m reset)
    rw [onGeneration_eq hs hfits.operator, onGeneration_eq ht hfits.operator]
    exact h
  | blob req now =>
    have hnetwork : req.network = n := by simpa [Input.concerns] using hmine
    exact ⟨h.blocks, h.accounts,
      postKeyBlob_alike h.blobs (fun hip => limits_of_owner (hnetwork ▸ hfits.poster) hip)
        (hnetwork ▸ hfits.posted) now, h.gate, h.handlers⟩
  | challenge ip m challengeId left now =>
    obtain rfl : m = n := by simpa [Input.concerns] using hmine
    exact ⟨h.blocks, h.accounts, h.blobs,
      challenge_alike h.gate (fun hip => limits_of_owner hfits.challenge.2 hip) m, h.handlers⟩
  | verify req now =>
    exact verify_alike h hs ht (by simpa [Input.concerns] using hmine) hfits.verify now
  | resume m k uuid now =>
    obtain rfl : m = n := by simpa [Input.concerns] using hmine
    exact resume_alike h hs k uuid now
  | releaseStale now =>
    exact ⟨h.blocks, h.accounts, h.blobs, releaseStale_alike h.gate hs.gate ht.gate, h.handlers⟩
  | ask m query now =>
    obtain rfl : m = n := by simpa [Input.concerns] using hmine
    cases query with
    | keyBlob ip username pub =>
      exact ⟨h.blocks, h.accounts, getKeyBlob_alike h.blobs
        (fun hip => limits_of_owner hfits.asker hip) now, h.gate, h.handlers⟩
    | _ => exact h

/-- An input of the other network does nothing to what a network sees. -/
theorem step_other (hs : Owned owner s) {a : Input F} (hfits : Fits P owner a)
    (hother : a.concerns n = false) : Alike owner n (s.step P cfg T a) s := by
  cases a with
  | block m block =>
    exact archiveEngineBlock_other (by simpa [Input.concerns] using hother) hfits.block
      hfits.opened
  | account m acc =>
    show Alike owner n (s.archiveAccount P T acc m) s
    unfold archiveAccount
    split
    · exact Alike.refl s
    · exact ⟨rfl, archiveAccountRecord_other (by simpa [Input.concerns] using hother),
        ⟨rfl, rfl, rfl⟩, GateAlike.refl _, rfl⟩
  | generation m reset =>
    show Alike owner n (s.onGeneration P T m reset) s
    rw [onGeneration_eq hs hfits.operator]
    exact Alike.refl s
  | blob req now =>
    have hmn : req.network ≠ n := by simpa [Input.concerns] using hother
    exact ⟨rfl, rfl, postKeyBlob_other hmn (limits_other hfits.poster hmn) hfits.posted now,
      GateAlike.refl _, rfl⟩
  | challenge ip m challengeId left now =>
    have hmn : m ≠ n := by simpa [Input.concerns] using hother
    exact ⟨rfl, rfl, ⟨rfl, rfl, rfl⟩, challenge_other hmn hfits.challenge.1, rfl⟩
  | verify req now => exact verify_other (by simpa [Input.concerns] using hother) now
  | resume m k uuid now =>
    exact resume_other hs (by simpa [Input.concerns] using hother) k uuid now
  | releaseStale now => cases hother
  | ask m query now =>
    have hmn : m ≠ n := by simpa [Input.concerns] using hother
    cases query with
    | keyBlob ip username pub =>
      exact ⟨rfl, rfl, getKeyBlob_other (limits_other hfits.asker hmn) now,
        GateAlike.refl _, rfl⟩
    | _ => exact Alike.refl s

theorem step_owned (h : Owned owner s) {a : Input F} (hfits : Fits P owner a) :
    Owned owner (s.step P cfg T a) := by
  cases a with
  | block m block => exact archiveEngineBlock_owned h hfits.block
  | account m acc =>
    show Owned owner (s.archiveAccount P T acc m)
    unfold archiveAccount
    split
    · exact h
    · exact ⟨h.blocks, archiveAccountRecord_owned h.accounts hfits.account, h.blobs, h.gate,
        h.handlers⟩
  | generation m reset =>
    show Owned owner (s.onGeneration P T m reset)
    rw [onGeneration_eq h hfits.operator]
    exact h
  | blob req now =>
    exact ⟨h.blocks, h.accounts, postKeyBlob_owned h.blobs hfits.posted now, h.gate, h.handlers⟩
  | challenge ip m challengeId left now =>
    exact ⟨h.blocks, h.accounts, h.blobs, challenge_owned h.gate hfits.challenge.1, h.handlers⟩
  | verify req now => exact verify_owned h hfits.verify now
  | resume m k uuid now => exact resume_owned h m k uuid now
  | releaseStale now =>
    exact ⟨h.blocks, h.accounts, h.blobs, releaseStale_owned h.gate, h.handlers⟩
  | ask m query now =>
    cases query with
    | keyBlob ip username pub =>
      refine ⟨h.blocks, h.accounts, ?_, h.gate, h.handlers⟩
      show BlobsOwned owner (s.blobs.getKeyBlob T ⟨ip, m, username, pub⟩ now).1
      rw [getKeyBlob_fst]
      exact h.blobs
    | _ => exact h

end Inputs

end Steps

/-! ## Answers -/

section Answers

variable [JsNumber F] {P : Primitives F} {cfg : RelayConfig F} {T : JsText F}
  {owner : SharedKey → Option Network} {n : Network} {s t : NetworkArchive F}

section

omit [JsNumber F]

theorem Owned.marks (h : Owned owner s) (n : Network) : ∀ hash row,
    s.engineBlockStore.get? hash = some row →
      decide (row.network = n.name) = owns owner n .block hash := by
  intro hash row hget
  obtain ⟨m, howner, hname⟩ := h.blocks hash row hget
  have hiff : m.name = n.name ↔ m = n := ⟨name_inj, congrArg Network.name⟩
  simp [owns, howner, hname, hiff]

theorem rowsOf_alike (h : Alike owner n s t) (hs : Owned owner s) (ht : Owned owner t) :
    s.rowsOf n = t.rowsOf n := by
  unfold rowsOf
  rw [JsMap.values_filter_eq (hs.marks n), JsMap.values_filter_eq (ht.marks n), h.blocks]

theorem Owned.row (h : Owned owner s) (n : Network) (hash : Hex) :
    ((s.engineBlockStore.get? hash).filter fun row => row.network = n.name) =
      (s.engineBlockStore.restrict (owns owner n .block)).get? hash := by
  rw [JsMap.get?_restrict]
  cases hget : s.engineBlockStore.get? hash with
  | none => simp
  | some row => simp [Option.filter, h.marks n hash row hget]

end

/-- A network that sees the same gets the same answers. -/
theorem answer_alike (h : Alike owner n s t) (hs : Owned owner s) (ht : Owned owner t)
    {query : Query F} {now : Int} (hfits : Fits P owner (.ask n query now)) :
    s.answer P T n now query = t.answer P T n now query := by
  have hrows := rowsOf_alike h hs ht
  have hchain (pub : String) : s.chainOf n pub = t.chainOf n pub := by
    unfold chainOf
    rw [hrows]
  cases query with
  | block hash =>
    show s.answerBlock n hash = t.answerBlock n hash
    unfold answerBlock
    rw [hs.row, ht.row, h.blocks]
  | headProof pub send =>
    show s.answerHeadProof P n pub send = t.answerHeadProof P n pub send
    unfold answerHeadProof
    rw [hchain]
  | token tokenId =>
    show s.answerToken P n tokenId = t.answerToken P n tokenId
    unfold answerToken
    simp only [hrows, hchain]
  | pendingSends pub =>
    show s.answerPendingSends n pub = t.answerPendingSends n pub
    unfold answerPendingSends
    rw [hrows]
  | resolve query =>
    show s.answerResolve T n query = t.answerResolve T n query
    unfold answerResolve
    rw [resolve_alike h.accounts h.gate.names hs.accounts ht.accounts hs.gate.names
      ht.gate.names]
  | keyBlob ip username pub =>
    exact congrArg Answer.keyBlob (getKeyBlob_answer h.blobs hs.blobs ht.blobs rfl
      (fun hip => limits_of_owner hfits.asker hip) now)
  | delta accountId shard haveIndex =>
    show s.answerDelta n accountId shard haveIndex = t.answerDelta n accountId shard haveIndex
    unfold answerDelta
    rw [hrows, h.blobs.archiveEnabled]

omit [JsNumber F] in
theorem owned_new (archiveEnabled : Bool) (generation : F) :
    Owned owner (new archiveEnabled generation) where
  blocks hash row hget := by cases hget
  accounts key row hget := by cases hget
  blobs pub row hget := by cases hget
  gate :=
    { sessions := fun challengeId session hget => by cases hget
      uses := fun accountId use hget => by cases hget
      names := fun username claim hget => by cases hget
      operators := fun accountId hmem => by cases hmem }
  handlers network frame hmem := by cases hmem

variable (P cfg T)

theorem final_owned (archiveEnabled : Bool) (generation : F) {inputs : List (Input F)}
    (hfits : ∀ a ∈ inputs, Fits P owner a) :
    Owned owner (Run.final (step P cfg T) (new archiveEnabled generation) inputs) := by
  refine Run.invariant_final (I := Owned owner) (C := fun _ a => Fits P owner a) ?_
    (owned_new archiveEnabled generation) (Run.stepsMeet_of_mem (fun a ha _ => hfits a ha) _)
  intro s a hs ha
  exact step_owned hs ha

theorem final_alike (archiveEnabled : Bool) (generation : F) {inputs : List (Input F)}
    (hfits : ∀ a ∈ inputs, Fits P owner a) :
    Alike owner n (Run.final (step P cfg T) (new archiveEnabled generation) inputs)
      (Run.final (step P cfg T) (new archiveEnabled generation)
        (inputs.filter (Input.concerns n))) := by
  refine Run.alike_final_filter (I := Owned owner) (C := Fits P owner) ?_ ?_ ?_
    (owned_new archiveEnabled generation) (owned_new archiveEnabled generation)
    (Alike.refl _) hfits
  · intro s a hs ha
    exact step_owned hs ha
  · intro s t a hs ht ha hmine h
    exact step_alike hs ht ha hmine h
  · intro s t a hs ha hother h
    exact (step_other hs ha hother).trans h

/-- Gossip and requests of two networks in any order: where nothing that is kept without the
network is used on both, a network is answered as if the other one had never come. -/
theorem isolated (archiveEnabled : Bool) (generation : F) (inputs : List (Input F))
    (n : Network) (query : Query F) (now : Int)
    (hseparate : Separate P (inputs ++ [.ask n query now])) :
    (Run.final (step P cfg T) (new archiveEnabled generation) inputs).answer P T n now query =
      (Run.final (step P cfg T) (new archiveEnabled generation)
        (inputs.filter (Input.concerns n))).answer P T n now query := by
  have hfits : ∀ a ∈ inputs, Fits P (ownerIn P (inputs ++ [.ask n query now])) a :=
    fun a ha => hseparate.fits (List.mem_append_left _ ha)
  have halone : ∀ a ∈ inputs.filter (Input.concerns n),
      Fits P (ownerIn P (inputs ++ [.ask n query now])) a :=
    fun a ha => hfits a (List.mem_filter.mp ha).1
  exact answer_alike (final_alike P cfg T archiveEnabled generation hfits)
    (final_owned P cfg T archiveEnabled generation hfits)
    (final_owned P cfg T archiveEnabled generation halone)
    (hseparate.fits (List.mem_append_right _ (List.mem_singleton_self _)))

end Answers

/-! ## A blob that is posted on the other network -/

section Samples

open NeuronWeb.OwnBlob (sampleBlob)
open NeuronWeb.Sample (primitives relayConfig jsText enrol)

/-- The post of a blob from the relay's own machine. -/
def post (network : Network) (blob : Json Rat) : Input Rat :=
  .blob ⟨"127.0.0.1", network, .ok (.obj [("blob", blob)])⟩ 0

/-- A wiped device asks for the blob of an account. -/
def recover (pub : String) : Query Rat := .keyBlob "127.0.0.1" "" pub

def sampleFinal (inputs : List (Input Rat)) : NetworkArchive Rat :=
  Run.final (step primitives relayConfig jsText) (new true 0) inputs

/-- The answer has a blob in it. -/
def Answer.hasBlob : Answer Rat → Bool
  | .keyBlob (.blob _) => true
  | _ => false

/-- The owner keeps a blob on mainnet, and then anybody posts a newer one for the same account
on testnet. -/
def postedTwice : List (Input Rat) :=
  [post .mainnet (sampleBlob "aa" "alice" "keys" 5), post .testnet (sampleBlob "aa" "bob" "no" 6)]

/-- Nobody on mainnet finds the owner's blob any more. -/
theorem posted_elsewhere_hides :
    ¬ ∀ (inputs : List (Input Rat)) (n : Network) (query : Query Rat) (now : Int),
      (sampleFinal inputs).answer primitives jsText n now query =
        (sampleFinal (inputs.filter (Input.concerns n))).answer primitives jsText n now query := by
  intro h
  have hsame := congrArg Answer.hasBlob (h postedTwice .mainnet (recover "aa") 0)
  have hhidden : ((sampleFinal postedTwice).answer primitives jsText .mainnet 0
      (recover "aa")).hasBlob = false := by decide +kernel
  have halone : ((sampleFinal (postedTwice.filter (Input.concerns .mainnet))).answer primitives
      jsText .mainnet 0 (recover "aa")).hasBlob = true := by decide +kernel
  rw [hhidden, halone] at hsame
  cases hsame

/-- Two accounts with a network each, and a claim on one of them. -/
def keptApart : List (Input Rat) :=
  [post .mainnet (sampleBlob "aa" "alice" "keys" 5), post .testnet (sampleBlob "bb" "bob" "no" 6),
    .challenge "127.0.0.1" .testnet "c" true 0, .verify (enrol .testnet "bb" "bob" "c" 1) 0,
    .resume .testnet 0 "uuid" 0, .resume .testnet 0 "" 0]

instance (inputs : List (Input Rat)) : Decidable (Separate primitives inputs) :=
  inferInstanceAs (Decidable (∀ i ∈ inputs, ∀ j ∈ inputs, ∀ k ∈ i.takes primitives,
    k ∈ j.takes primitives ++ j.meets primitives → i.side = j.side))

theorem isolated_keptApart :
    Separate primitives (keptApart ++ [.ask .mainnet (recover "aa") 0]) ∧
      (sampleFinal keptApart).answer primitives jsText .mainnet 0 (recover "aa") =
        (sampleFinal (keptApart.filter (Input.concerns .mainnet))).answer primitives jsText
          .mainnet 0 (recover "aa") := by
  have hseparate : Separate primitives (keptApart ++ [.ask .mainnet (recover "aa") 0]) := by
    decide +kernel
  exact ⟨hseparate, isolated primitives relayConfig jsText true 0 keptApart .mainnet
    (recover "aa") 0 hseparate⟩

end Samples

end NeuronWeb.NetworkArchive
