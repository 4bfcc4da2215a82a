/-
  Recovery/BadRelay: does the release of the recovery secret stand one bad relay?

  Nothing authenticates a share.  An answer without `x` is taken for the full secret, and a share
  is combined with the first one before it of the same time and another `x`.  So a bad answer
  spoils the release where it is used, and nowhere else (`release_unless_used`).
-/
import NeuronWeb.Recovery.Release

set_option autoImplicit false

namespace NeuronWeb

variable {F K : Type}

/-! ## What honest relays hold and send -/

/-- What ECDH and AES-GCM promise; a ciphertext has its tag, at least. -/
structure ReleaseEnv.Lawful (E : ReleaseEnv F K) : Prop where
  agree : ∀ a b, ∃ bits, E.deriveBits (E.publicRaw a) b = .ok bits ∧
    E.deriveBits (E.publicRaw b) a = .ok bits
  decrypt_encrypt : ∀ key iv data, E.decrypt key iv (E.encrypt key iv data) = .ok data
  publicRaw_ne_nil : ∀ a, E.publicRaw a ≠ []
  encrypt_ne_nil : ∀ key iv data, E.encrypt key iv data ≠ []

/-- The secret of an account, and the random bytes of each of its splits, by the time of the
split. -/
structure Custody where
  secret : Bytes
  random : Int → Bytes
  length_secret : secret.length = 32
  length_random : ∀ ts, (random ts).length = secret.length

namespace Custody

variable (G : Custody)

/-- The share `x` of the split at `ts`. -/
def share (ts : Int) (x : Nat) : Bytes := shareData G.secret (G.random ts) x

/-- A record that the owner has stored: the full secret, or a share of some split. -/
inductive Stored : CustodyRecord → Prop where
  | full (ts : Int) : Stored ⟨bytesToHex G.secret, none, ts⟩
  | share (ts : Int) (x : Nat) (hx : 0 < x ∧ x < 256) :
      Stored ⟨bytesToHex (G.share ts x), some x, ts⟩

variable (E : ReleaseEnv F K)

/-- The relay releases the record, wrapped for the key of the request. -/
def Releases (record : CustodyRecord) (a : ReleaseAttempt F K) : Prop :=
  ∃ eph iv body, iv ≠ [] ∧ a.reply = .released (.ok body) ∧
    E.releaseResponse eph iv record (bytesToHex (E.publicRaw a.eph)) = some body

/-- The relay follows the protocol: it fails, or releases what the owner has stored there. -/
def Follows (a : ReleaseAttempt F K) : Prop :=
  (∀ body, a.reply ≠ .released (.ok body)) ∨ ∃ record, G.Stored record ∧ Releases E record a

end Custody

/-! ## The client unwraps what a relay has wrapped -/

namespace ReleaseEnv

variable {E : ReleaseEnv F K}

theorem unhex_bytesToHex {b : Bytes} (h : b ≠ []) : E.unhex (.str (bytesToHex b)) = .ok b := by
  obtain ⟨c, rest, rfl⟩ := List.exists_cons_of_ne_nil h
  simp only [unhex, hexToBytes_bytesToHex]

variable [JsNumber F]

theorem filter_bytesToHex {b : Bytes} (h : b ≠ []) :
    (some (Json.str (bytesToHex b) : Json F)).filter (fun v => !v.falsy) =
      some (.str (bytesToHex b)) := by
  refine Option.filter_eq_some_iff.mpr ⟨rfl, ?_⟩
  simp [Json.falsy, bytesToHex_ne_empty h]

theorem openWrapped_releaseResponse (hE : E.Lawful) {eph clientEph : K} {iv : Bytes}
    (hiv : iv ≠ []) {data : Bytes} (hdata : data.length = 32) {x : Option Nat} {ts : Int}
    {body : Json F} (h : E.releaseResponse eph iv ⟨bytesToHex data, x, ts⟩
      (bytesToHex (E.publicRaw clientEph)) = some body) :
    openWrapped E clientEph body =
      .opened data ((x.filter (· ≠ 0)).map fun (x : Nat) => .int x) (.int ts) := by
  obtain ⟨bits, hrelay, hclient⟩ := hE.agree clientEph eph
  unfold releaseResponse wrapShareForClient at h
  simp only [hexToBytes_bytesToHex, hrelay, Except.toOption, Option.bind_eq_bind,
    Option.bind_some, Option.pure_def, Option.map_some, Option.some.injEq] at h
  have hfields : body.property "ephPub" = some (.str (bytesToHex (E.publicRaw eph))) ∧
      body.property "iv" = some (.str (bytesToHex iv)) ∧
      body.property "ct" = some (.str (bytesToHex (E.encrypt (E.sha256 bits) iv data))) ∧
      body.property "x" = (x.filter (· ≠ 0)).map (fun (x : Nat) => .int x) ∧
      body.property "ts" = some (.int ts) := by
    rw [← h]
    cases x.filter (· ≠ 0) with
    | none => exact ⟨rfl, rfl, rfl, rfl, rfl⟩
    | some x => exact ⟨rfl, rfl, rfl, rfl, rfl⟩
  obtain ⟨hephPub, hivField, hct, hx, hts⟩ := hfields
  have hunwrap : E.unwrap clientEph (.str (bytesToHex (E.publicRaw eph))) (.str (bytesToHex iv))
      (.str (bytesToHex (E.encrypt (E.sha256 bits) iv data))) = .ok data := by
    unfold unwrap
    rw [unhex_bytesToHex (hE.publicRaw_ne_nil eph), unhex_bytesToHex hiv,
      unhex_bytesToHex (hE.encrypt_ne_nil _ _ _)]
    show (E.deriveBits (E.publicRaw eph) clientEph >>= _) = _
    rw [hclient]
    exact hE.decrypt_encrypt _ _ _
  unfold openWrapped
  rw [hephPub, hivField, hct, hx, hts, filter_bytesToHex (hE.publicRaw_ne_nil eph),
    filter_bytesToHex hiv, filter_bytesToHex (hE.encrypt_ne_nil _ _ _)]
  dsimp only
  rw [hunwrap]
  exact if_neg (not_not.mpr hdata)

end ReleaseEnv

/-! ## Answers and their shares -/

namespace Opened

variable [JsNumber F]

/-- The share of an answer. -/
def share? : Opened F → Option (RecoveryShare F)
  | .opened data x ts => (x.filter fun v => !v.falsy).map fun x => ⟨⟨x, data⟩, ts⟩
  | _ => none

/-- An answer that is taken for the full secret. -/
def isFull : Opened F → Bool
  | .opened _ x _ => Json.missing x
  | _ => false

/-- The shares of some answers. -/
def shares (answers : List (Opened F)) : List (RecoveryShare F) := answers.filterMap share?

theorem shares_append (a b : List (Opened F)) : shares (a ++ b) = shares a ++ shares b :=
  List.filterMap_append

/-- Some answers complete a release. -/
def Completes (answers : List (Opened F)) : Prop :=
  (∃ o ∈ answers, o.isFull = true) ∨
    ∃ s ∈ shares answers, ∃ t ∈ shares answers, pairs s t = true

theorem Completes.of_no_share {answers : List (Opened F)} {o : Opened F}
    (h : Completes (answers ++ [o])) (hfull : o.isFull ≠ true) (hshare : o.share? = none) :
    Completes answers := by
  have hshares : shares (answers ++ [o]) = shares answers := by
    have hnone : shares [o] = [] := List.filterMap_cons_none hshare
    rw [shares_append, hnone, List.append_nil]
  rcases h with ⟨a, ha, hisFull⟩ | h
  · rcases List.mem_append.mp ha with ha | ha
    · exact .inl ⟨a, ha, hisFull⟩
    · rw [List.mem_singleton] at ha
      exact absurd (ha ▸ hisFull) hfull
  · rw [hshares] at h
    exact .inr h

/-- The answer `d` is used: the ones before it have not completed the release, and it is taken for
the full secret, or pairs with a share before it, or a later share, to which the others have not
completed the release, finds `d` for its partner. -/
def Used (before : List (Opened F)) (d : Opened F) (after : List (Opened F)) : Prop :=
  ¬ Completes before ∧
    (d.isFull = true ∨
      ∃ s, d.share? = some s ∧
        ((∃ h ∈ shares before, pairs h s = true) ∨
          ∃ mid c rest t, after = mid ++ c :: rest ∧ ¬ Completes (before ++ mid) ∧
            c.share? = some t ∧ pairs s t = true ∧ ∀ h ∈ shares before, pairs h t = false))

theorem not_used_of_alone {before after : List (Opened F)} {d : Opened F}
    (hfull : d.isFull ≠ true)
    (halone : ∀ s, d.share? = some s → (∀ h ∈ shares before, pairs h s ≠ true) ∧
      ∀ t ∈ shares after, pairs s t ≠ true) : ¬ Used before d after := by
  rintro ⟨-, hisFull | ⟨s, hs, ⟨h, hh, hpairs⟩ | ⟨mid, c, rest, t, rfl, -, ht, hpairs, -⟩⟩⟩
  · exact hfull hisFull
  · exact (halone s hs).1 h hh hpairs
  · have hmem : t ∈ shares (mid ++ c :: rest) :=
      List.mem_filterMap.mpr ⟨c, List.mem_append_right _ List.mem_cons_self, ht⟩
    exact (halone s hs).2 t hmem hpairs

end Opened

namespace Custody

variable (G : Custody)

/-- An answer of an honest relay, as the client reads it. -/
inductive Honest : Opened F → Prop where
  | skipped : Honest .skipped
  | failed (reason : Json F) (retryAfterS : Option F) : Honest (.failed reason retryAfterS)
  | full (ts : Int) : Honest (.opened G.secret none (.int ts))
  | share (ts : Int) (x : Nat) (hx : 0 < x ∧ x < 256) :
      Honest (.opened (G.share ts x) (some (.int x)) (.int ts))

/-- The share `x` of the split at `ts`, as the client keeps it. -/
def kept (ts : Int) (x : Nat) : RecoveryShare F := ⟨⟨.int x, G.share ts x⟩, .int ts⟩

/-- A share of one of the splits. -/
def Genuine (s : RecoveryShare F) : Prop := ∃ ts x, (0 < x ∧ x < 256) ∧ s = G.kept ts x

variable {G} [JsNumber F]

theorem share?_kept {ts : Int} {x : Nat} (hx : 0 < x) :
    (Opened.opened (G.share ts x) (some (.int x)) (.int ts) : Opened F).share? =
      some (G.kept ts x) := by
  have hfalsy : Json.falsy (.int x : Json F) = false := by
    simp [Json.falsy, hx.ne']
  unfold Opened.share?
  simp [hfalsy, kept]

theorem Honest.genuine {o : Opened F} (h : G.Honest o) {s : RecoveryShare F}
    (hs : o.share? = some s) : G.Genuine s := by
  cases h with
  | skipped => cases hs
  | failed reason retryAfterS => cases hs
  | full ts => cases hs
  | share ts x hx =>
    rw [share?_kept hx.1] at hs
    exact ⟨ts, x, hx, (Option.some.inj hs).symm⟩

theorem genuine_of_mem_shares {answers : List (Opened F)} (h : ∀ o ∈ answers, G.Honest o)
    {s : RecoveryShare F} (hs : s ∈ Opened.shares answers) : G.Genuine s := by
  obtain ⟨o, ho, hshare⟩ := List.mem_filterMap.mp hs
  exact (h o ho).genuine hshare

theorem pairs_kept (ts ts' : Int) (x y : Nat) :
    pairs (G.kept ts x : RecoveryShare F) (G.kept ts' y) = true ↔ x ≠ y ∧ ts = ts' := by
  show (!((x : Int) == (y : Int)) && (ts == ts')) = true ↔ _
  simp

theorem Genuine.pairs_comm {s t : RecoveryShare F} (hs : G.Genuine s) (ht : G.Genuine t)
    (h : pairs s t = true) : pairs t s = true := by
  obtain ⟨ts, x, -, rfl⟩ := hs
  obtain ⟨ts', y, -, rfl⟩ := ht
  rw [pairs_kept] at h ⊢
  exact ⟨h.1.symm, h.2.symm⟩

theorem Genuine.not_pairs_self {s : RecoveryShare F} (hs : G.Genuine s) : pairs s s ≠ true := by
  obtain ⟨ts, x, -, rfl⟩ := hs
  rw [Ne, pairs_kept]
  exact fun h => h.1 rfl

theorem Genuine.combine (J : JsIndexing F) {s t : RecoveryShare F} (hs : G.Genuine s)
    (ht : G.Genuine t) (h : pairs s t = true) :
    shamirCombine J s.toShamirShare t.toShamirShare = .ok G.secret := by
  obtain ⟨ts, x, hx, rfl⟩ := hs
  obtain ⟨ts', y, hy, rfl⟩ := ht
  obtain ⟨hne, rfl⟩ := (pairs_kept ts ts' x y).mp h
  exact shamirCombine_shares J (G.length_random ts) hx hy hne

/-! ## A relay that follows the protocol -/

variable {E : ReleaseEnv F K}

theorem length_share (ts : Int) (x : Nat) : (G.share ts x).length = 32 :=
  (length_shareData (G.length_random ts) x).trans G.length_secret

theorem openAnswer_of_releases (hE : E.Lawful) {a : ReleaseAttempt F K}
    (hproof : a.hasProof = true) {data : Bytes} (hdata : data.length = 32) {x : Option Nat}
    {ts : Int} (h : Releases E ⟨bytesToHex data, x, ts⟩ a) :
    openAnswer E a =
      .opened data ((x.filter (· ≠ 0)).map fun (x : Nat) => .int x) (.int ts) := by
  obtain ⟨eph, iv, body, hiv, hreply, hbody⟩ := h
  have hopen := ReleaseEnv.openWrapped_releaseResponse hE hiv hdata hbody
  simp only [openAnswer, hproof, hreply, Bool.true_eq_false, if_false]
  exact hopen

theorem openAnswer_share (hE : E.Lawful) {a : ReleaseAttempt F K} (hproof : a.hasProof = true)
    {ts : Int} {x : Nat} (hx : 0 < x)
    (h : Releases E ⟨bytesToHex (G.share ts x), some x, ts⟩ a) :
    openAnswer E a = .opened (G.share ts x) (some (.int x)) (.int ts) := by
  have hfilter : (some x).filter (· ≠ 0) = some x :=
    Option.filter_eq_some_iff.mpr ⟨rfl, decide_eq_true hx.ne'⟩
  rw [openAnswer_of_releases hE hproof (length_share ts x) h, hfilter]
  rfl

theorem refusal_failed (E : ReleaseEnv F K) (status : Nat) (err : Json F) :
    ∃ reason retryAfterS, refusal E status err = .failed reason retryAfterS := by
  cases err <;> exact ⟨_, _, rfl⟩

theorem Follows.honest (hE : E.Lawful) {a : ReleaseAttempt F K} (h : G.Follows E a) :
    G.Honest (openAnswer E a) := by
  cases hproof : a.hasProof with
  | false =>
    have hopen : openAnswer E a = .skipped := if_pos hproof
    rw [hopen]
    exact .skipped
  | true =>
    rcases h with hfails | ⟨record, hstored, hreleases⟩
    · simp only [openAnswer, hproof, Bool.true_eq_false, if_false]
      cases hreply : a.reply with
      | unreachable message => exact .failed _ _
      | refused status body =>
        obtain ⟨reason, retryAfterS, hrefusal⟩ := refusal_failed E status (body.getD (.obj []))
        dsimp only
        rw [hrefusal]
        exact .failed _ _
      | released body =>
        cases body with
        | error message => exact .failed _ _
        | ok wrapped => exact absurd hreply (hfails wrapped)
    · cases hstored with
      | full ts =>
        rw [openAnswer_of_releases hE hproof G.length_secret hreleases]
        exact .full ts
      | share ts x hx =>
        rw [openAnswer_share hE hproof hx.1 hreleases]
        exact .share ts x hx

end Custody

/-! ## One step of the loop -/

section Step

variable [JsNumber F] {E : ReleaseEnv F K}

theorem Opened.eq_of_share? {o : Opened F} {s : RecoveryShare F} (h : o.share? = some s) :
    ∃ x, o = .opened s.data x s.ts ∧ x.filter (fun v => !v.falsy) = some s.x := by
  cases o with
  | skipped => cases h
  | failed reason retryAfterS => cases h
  | opened data x ts =>
    obtain ⟨v, hv, rfl⟩ := Option.map_eq_some_iff.mp h
    exact ⟨x, rfl, hv⟩

theorem ReleaseState.take_of_partner {o : Opened F} {s partner : RecoveryShare F}
    {st : ReleaseState F} {secret : Bytes} (hs : o.share? = some s)
    (hpartner : st.shares.find? (pairs · s) = some partner)
    (hcombine : shamirCombine E.indexing partner.toShamirShare s.toShamirShare = .ok secret) :
    st.take E o = .inl secret := by
  obtain ⟨x, rfl, hx⟩ := Opened.eq_of_share? hs
  unfold ReleaseState.take
  simp only [hx]
  rw [show (⟨⟨s.x, s.data⟩, s.ts⟩ : RecoveryShare F) = s from rfl, hpartner]
  simp only [hcombine]

theorem ReleaseState.take_of_alone {o : Opened F} {s : RecoveryShare F} {st : ReleaseState F}
    (hs : o.share? = some s) (halone : st.shares.find? (pairs · s) = none) :
    ∃ st', st.take E o = .inr st' ∧ st'.shares = st.shares ++ [s] := by
  obtain ⟨x, rfl, hx⟩ := Opened.eq_of_share? hs
  unfold ReleaseState.take
  simp only [hx]
  rw [show (⟨⟨s.x, s.data⟩, s.ts⟩ : RecoveryShare F) = s from rfl, halone]
  exact ⟨_, rfl, rfl⟩

theorem ReleaseState.take_of_no_share {o : Opened F} (hfull : o.isFull ≠ true)
    (hs : o.share? = none) (st : ReleaseState F) :
    ∃ st', st.take E o = .inr st' ∧ st'.shares = st.shares := by
  cases o with
  | skipped => exact ⟨_, rfl, rfl⟩
  | failed reason retryAfterS => exact ⟨_, rfl, rfl⟩
  | opened data x ts =>
    refine absurd ?_ hfull
    show Json.missing x = true
    have hx : x.filter (fun v => !v.falsy) = none := Option.map_eq_none_iff.mp hs
    cases x with
    | none => rfl
    | some v =>
      have hv := Option.filter_eq_none_iff.mp hx v rfl
      simpa [Json.missing] using hv

end Step

/-! ## The loop over honest answers -/

namespace Custody

variable {G : Custody} [JsNumber F] {E : ReleaseEnv F K}

theorem Honest.take_of_isFull {o : Opened F} (h : G.Honest o) (hfull : o.isFull = true)
    (st : ReleaseState F) : st.take E o = .inl G.secret := by
  cases h with
  | skipped => cases hfull
  | failed reason retryAfterS => cases hfull
  | full ts => rfl
  | share ts x hx =>
    have hfalsy : Json.falsy (.int x : Json F) = true := hfull
    simp [Json.falsy, hx.1.ne'] at hfalsy

theorem find?_partner {early extra late : List (RecoveryShare F)}
    {t : RecoveryShare F}
    (hextra : (∃ h ∈ early, pairs h t = true) ∨ ∀ s ∈ extra, pairs s t ≠ true)
    (hpartner : ∃ p ∈ early ++ late, pairs p t = true) :
    ∃ p, (early ++ extra ++ late).find? (pairs · t) = some p ∧ p ∈ early ++ late := by
  cases hearly : early.find? (pairs · t) with
  | some p =>
    refine ⟨p, ?_, List.mem_append_left _ (List.mem_of_find?_eq_some hearly)⟩
    rw [List.append_assoc, List.find?_append, hearly, Option.some_or]
  | none =>
    rw [List.find?_eq_none] at hearly
    have hnone : extra.find? (pairs · t) = none := by
      refine List.find?_eq_none.mpr (hextra.resolve_left ?_)
      rintro ⟨h, hh, hpairs⟩
      exact hearly h hh hpairs
    obtain ⟨p, hp, hpairs⟩ := hpartner
    have hlate := (List.mem_append.mp hp).resolve_left fun hp => hearly p hp hpairs
    obtain ⟨q, hq⟩ := Option.isSome_iff_exists.mp
      (List.find?_isSome.mpr ⟨p, hlate, hpairs⟩ : (late.find? (pairs · t)).isSome = true)
    refine ⟨q, ?_, List.mem_append_right _ (List.mem_of_find?_eq_some hq)⟩
    rw [List.find?_append, List.find?_append, List.find?_eq_none.mpr hearly, hnone,
      Option.none_or, Option.none_or, hq]

/-- Genuine shares that no answer has completed, and one more answer: it completes the secret, or
it still does not.  The extra share is the one of the bad relay. -/
theorem Honest.step {before mid : List (Opened F)} {extra : List (RecoveryShare F)}
    {o : Opened F} {st : ReleaseState F} (hhonest : ∀ a ∈ before ++ mid, G.Honest a)
    (ho : G.Honest o) (hst : st.shares = Opened.shares before ++ extra ++ Opened.shares mid)
    (hnot : ¬ Opened.Completes (before ++ mid))
    (hextra : ∀ t, o.share? = some t → (∃ h ∈ Opened.shares before, pairs h t = true) ∨
      ∀ s ∈ extra, pairs s t ≠ true) :
    st.take E o = .inl G.secret ∨
      ∃ st', st.take E o = .inr st' ∧
        st'.shares = Opened.shares before ++ extra ++ Opened.shares (mid ++ [o]) ∧
        ¬ Opened.Completes (before ++ (mid ++ [o])) := by
  by_cases hfull : o.isFull = true
  · exact .inl (ho.take_of_isFull hfull st)
  cases hshare : o.share? with
  | none =>
    obtain ⟨st', htake, hst'⟩ := ReleaseState.take_of_no_share hfull hshare st
    have hnone : Opened.shares [o] = [] := List.filterMap_cons_none hshare
    refine .inr ⟨st', htake, ?_, fun hcompletes => hnot ?_⟩
    · rw [hst', hst, Opened.shares_append, hnone, List.append_nil]
    · rw [← List.append_assoc] at hcompletes
      exact hcompletes.of_no_share hfull hshare
  | some t =>
    have hgenuine := ho.genuine hshare
    have hkept : ∀ p ∈ Opened.shares (before ++ mid), G.Genuine p := fun p hp =>
      genuine_of_mem_shares hhonest hp
    rw [Opened.shares_append] at hkept
    by_cases hpartner : ∃ p ∈ Opened.shares before ++ Opened.shares mid, pairs p t = true
    · -- the first partner is genuine: the extra share is not asked before it
      left
      obtain ⟨p, hfind, hp⟩ := find?_partner (hextra t hshare) hpartner
      have hpairs := List.find?_some (p := (pairs · t)) hfind
      rw [← hst] at hfind
      exact ReleaseState.take_of_partner hshare hfind ((hkept p hp).combine _ hgenuine hpairs)
    · right
      have hextra' : ∀ s ∈ extra, pairs s t ≠ true := by
        refine (hextra t hshare).resolve_left ?_
        rintro ⟨h, hh, hpairs⟩
        exact hpartner ⟨h, List.mem_append_left _ hh, hpairs⟩
      have halone : st.shares.find? (pairs · t) = none := by
        rw [hst]
        refine List.find?_eq_none.mpr fun p hp hpairs => ?_
        rcases List.mem_append.mp hp with hp | hp
        · rcases List.mem_append.mp hp with hp | hp
          · exact hpartner ⟨p, List.mem_append_left _ hp, hpairs⟩
          · exact hextra' p hp hpairs
        · exact hpartner ⟨p, List.mem_append_right _ hp, hpairs⟩
      obtain ⟨st', htake, hst'⟩ := ReleaseState.take_of_alone hshare halone
      have hone : Opened.shares [o] = [t] := List.filterMap_cons_some hshare
      refine ⟨st', htake, ?_, ?_⟩
      · rw [hst', hst, Opened.shares_append, hone, List.append_assoc _ (Opened.shares mid)]
      · rintro (⟨a, ha, hisFull⟩ | ⟨p, hp, q, hq, hpairs⟩)
        · rw [← List.append_assoc] at ha
          rcases List.mem_append.mp ha with ha | ha
          · exact hnot (.inl ⟨a, ha, hisFull⟩)
          · rw [List.mem_singleton] at ha
            exact hfull (ha ▸ hisFull)
        · rw [← List.append_assoc, Opened.shares_append, hone] at hp hq
          rcases List.mem_append.mp hp with hp | hp <;> rcases List.mem_append.mp hq with hq | hq
          · exact hnot (.inr ⟨p, hp, q, hq, hpairs⟩)
          · rw [Opened.shares_append] at hp
            rw [List.mem_singleton.mp hq] at hpairs
            exact hpartner ⟨p, hp, hpairs⟩
          · rw [Opened.shares_append] at hq
            rw [List.mem_singleton.mp hp] at hpairs
            exact hpartner ⟨q, hq, hgenuine.pairs_comm (hkept q hq) hpairs⟩
          · rw [List.mem_singleton.mp hp, List.mem_singleton.mp hq] at hpairs
            exact hgenuine.not_pairs_self hpairs

/-- The steps of `Honest.step`, one after another. -/
theorem takeAll_honest (before : List (Opened F)) (extra : List (RecoveryShare F))
    (rest : List (Opened F)) :
    ∀ (after mid : List (Opened F)) (st : ReleaseState F),
      (∀ a ∈ before ++ (mid ++ after), G.Honest a) →
      st.shares = Opened.shares before ++ extra ++ Opened.shares mid →
      ¬ Opened.Completes (before ++ mid) →
      (∀ early c late t, after = early ++ c :: late →
        ¬ Opened.Completes (before ++ (mid ++ early)) → c.share? = some t →
        (∃ h ∈ Opened.shares before, pairs h t = true) ∨ ∀ s ∈ extra, pairs s t ≠ true) →
      ReleaseState.takeAll E (after ++ rest) st = .ok G.secret ∨
        ∃ st', ReleaseState.takeAll E (after ++ rest) st = ReleaseState.takeAll E rest st' ∧
          st'.shares = Opened.shares before ++ extra ++ Opened.shares (mid ++ after) ∧
          ¬ Opened.Completes (before ++ (mid ++ after)) := by
  intro after
  induction after with
  | nil =>
    intro mid st _ hst hnot _
    rw [List.append_nil]
    exact .inr ⟨st, rfl, hst, hnot⟩
  | cons o later ih =>
    intro mid st hhonest hst hnot hextra
    have hbefore : ∀ a ∈ before ++ mid, G.Honest a := by
      intro a ha
      rw [← List.append_assoc] at hhonest
      exact hhonest a (List.mem_append_left _ ha)
    have ho : G.Honest o := hhonest o (by simp)
    have hfirst : ∀ t, o.share? = some t → (∃ h ∈ Opened.shares before, pairs h t = true) ∨
        ∀ s ∈ extra, pairs s t ≠ true := by
      intro t ht
      refine hextra [] o later t rfl ?_ ht
      rw [List.append_nil]
      exact hnot
    have hassoc : mid ++ o :: later = mid ++ [o] ++ later := List.append_cons ..
    rcases ho.step (E := E) hbefore hst hnot hfirst with htake | ⟨st', htake, hst', hnot'⟩
    · left
      simp only [List.cons_append, ReleaseState.takeAll, htake]
    · rw [hassoc] at hhonest ⊢
      have hlater := ih (mid ++ [o]) st' hhonest hst' hnot' (by
        intro early c late t hsplit hearly ht
        refine hextra (o :: early) c late t (congrArg (o :: ·) hsplit) ?_ ht
        rw [List.append_cons]
        exact hearly)
      simp only [List.cons_append, ReleaseState.takeAll, htake]
      exact hlater

theorem not_completes_nil : ¬ Opened.Completes ([] : List (Opened F)) := by
  rintro (⟨o, ho, -⟩ | ⟨s, hs, -⟩)
  · cases ho
  · cases hs

theorem takeAll_from_start (rest before : List (Opened F)) (st : ReleaseState F)
    (hhonest : ∀ a ∈ before, G.Honest a) (hst : st.shares = []) :
    ReleaseState.takeAll E (before ++ rest) st = .ok G.secret ∨
      ∃ st', ReleaseState.takeAll E (before ++ rest) st = ReleaseState.takeAll E rest st' ∧
        st'.shares = Opened.shares before ∧ ¬ Opened.Completes before :=
  takeAll_honest [] [] rest before [] st hhonest hst not_completes_nil
    fun _ _ _ _ _ _ _ => .inr fun _ hs => absurd hs List.not_mem_nil

/-- A bad answer that is not used, among honest ones that complete the release. -/
theorem takeAll_unused {before after : List (Opened F)} {d : Opened F}
    (hhonest : ∀ a ∈ before ++ after, G.Honest a) (hunused : ¬ Opened.Used before d after)
    (hcompletes : Opened.Completes (before ++ after)) (st : ReleaseState F)
    (hst : st.shares = []) :
    ReleaseState.takeAll E (before ++ d :: after) st = .ok G.secret := by
  have hbefore : ∀ a ∈ before, G.Honest a := fun a ha => hhonest a (List.mem_append_left _ ha)
  rcases takeAll_from_start (E := E) (d :: after) before st hbefore hst with
    hok | ⟨st₁, hrun, hst₁, hnot⟩
  · exact hok
  have hfull : d.isFull ≠ true := fun hfull => hunused ⟨hnot, .inl hfull⟩
  -- the share of the bad answer, if it has one, is kept, and no one finds it
  obtain ⟨extra, st₂, htake, hst₂, hextra⟩ : ∃ extra st₂, st₁.take E d = .inr st₂ ∧
      st₂.shares = Opened.shares before ++ extra ∧ ∀ s ∈ extra, d.share? = some s := by
    cases hshare : d.share? with
    | none =>
      obtain ⟨st₂, htake, hst₂⟩ := ReleaseState.take_of_no_share hfull hshare st₁
      refine ⟨[], st₂, htake, ?_, fun s hs => absurd hs List.not_mem_nil⟩
      rw [hst₂, hst₁, List.append_nil]
    | some s =>
      have halone : st₁.shares.find? (pairs · s) = none := by
        rw [hst₁]
        refine List.find?_eq_none.mpr fun h hh hpairs => ?_
        exact hunused ⟨hnot, .inr ⟨s, hshare, .inl ⟨h, hh, hpairs⟩⟩⟩
      obtain ⟨st₂, htake, hst₂⟩ := ReleaseState.take_of_alone hshare halone
      refine ⟨[s], st₂, htake, hst₁ ▸ hst₂, fun t ht => ?_⟩
      rw [List.mem_singleton.mp ht]
  have hlater : ∀ early c late t, after = early ++ c :: late →
      ¬ Opened.Completes (before ++ ([] ++ early)) → c.share? = some t →
      (∃ h ∈ Opened.shares before, pairs h t = true) ∨ ∀ s ∈ extra, pairs s t ≠ true := by
    intro early c late t hsplit hearly ht
    by_contra hfinds
    rw [not_or] at hfinds
    obtain ⟨hnone, hsome⟩ := hfinds
    obtain ⟨s, hs, hpairs⟩ : ∃ s ∈ extra, pairs s t = true := by
      by_contra hno
      exact hsome fun s hs hpairs => hno ⟨s, hs, hpairs⟩
    refine hunused ⟨hnot, .inr ⟨s, hextra s hs, .inr ⟨early, c, late, t, hsplit, hearly, ht,
      hpairs, fun h hh => ?_⟩⟩⟩
    exact Bool.eq_false_iff.mpr fun hpairs => hnone ⟨h, hh, hpairs⟩
  have hst₂ : st₂.shares = Opened.shares before ++ extra ++ Opened.shares [] :=
    hst₂.trans (List.append_nil _).symm
  have hnot' : ¬ Opened.Completes (before ++ []) := by
    rw [List.append_nil]
    exact hnot
  have hafter := takeAll_honest (E := E) before extra [] after [] st₂ hhonest hst₂ hnot' hlater
  rw [List.append_nil] at hafter
  have hfinish : ReleaseState.takeAll E after st₂ = .ok G.secret := by
    refine hafter.resolve_right ?_
    rintro ⟨_, _, _, hnone⟩
    exact hnone hcompletes
  rw [hrun]
  simp only [ReleaseState.takeAll, htake]
  exact hfinish

end Custody

/-! ## The release -/

namespace Custody

variable {G : Custody} [JsNumber F] {E : ReleaseEnv F K}

/-- The relay is challenged, and releases the share `x` of the split at `ts`. -/
def ReleasesShare (G : Custody) (E : ReleaseEnv F K) (ts : Int) (x : Nat)
    (a : ReleaseAttempt F K) : Prop :=
  a.hasProof = true ∧ (0 < x ∧ x < 256) ∧ Releases E ⟨bytesToHex (G.share ts x), some x, ts⟩ a

omit [JsNumber F] in
theorem ReleasesShare.follows {ts : Int} {x : Nat} {a : ReleaseAttempt F K}
    (h : G.ReleasesShare E ts x a) : G.Follows E a := .inr ⟨_, .share ts x h.2.1, h.2.2⟩

theorem completes_of_releasesShare (hE : E.Lawful) {ts : Int} {x y : Nat} (hne : x ≠ y)
    {a b : ReleaseAttempt F K} (ha : G.ReleasesShare E ts x a) (hb : G.ReleasesShare E ts y b)
    {attempts : List (ReleaseAttempt F K)} (hamem : a ∈ attempts) (hbmem : b ∈ attempts) :
    Opened.Completes (attempts.map (openAnswer E)) := by
  have hshare : ∀ {c z}, G.ReleasesShare E ts z c → c ∈ attempts →
      (G.kept ts z : RecoveryShare F) ∈ Opened.shares (attempts.map (openAnswer E)) := by
    intro c z hc hmem
    refine List.mem_filterMap.mpr ⟨openAnswer E c, List.mem_map_of_mem hmem, ?_⟩
    rw [openAnswer_share hE hc.1 hc.2.1.1 hc.2.2]
    exact share?_kept hc.2.1.1
  exact .inr ⟨_, hshare ha hamem, _, hshare hb hbmem, (pairs_kept ts ts x y).mpr ⟨hne, rfl⟩⟩

/-- The release stands one bad relay, whose answer is not used. -/
theorem release_unless_used (hE : E.Lawful) {pre post : List (ReleaseAttempt F K)}
    {d : ReleaseAttempt F K} (hfollows : ∀ a ∈ pre ++ post, G.Follows E a)
    (hd : G.Follows E d ∨
      ¬ Opened.Used (pre.map (openAnswer E)) (openAnswer E d) (post.map (openAnswer E)))
    {ts : Int} {x y : Nat} (hne : x ≠ y) {a b : ReleaseAttempt F K}
    (ha : G.ReleasesShare E ts x a) (hb : G.ReleasesShare E ts y b)
    (hamem : a ∈ pre ++ d :: post) (hbmem : b ∈ pre ++ d :: post) :
    releaseRecoveryShare E (pre ++ d :: post) = .ok G.secret := by
  have hhonest : ∀ o ∈ (pre ++ post).map (openAnswer E), G.Honest o := by
    intro o ho
    obtain ⟨c, hc, rfl⟩ := List.mem_map.mp ho
    exact (hfollows c hc).honest hE
  unfold releaseRecoveryShare
  by_cases hdfollows : G.Follows E d
  · have hall : ∀ o ∈ (pre ++ d :: post).map (openAnswer E), G.Honest o := by
      intro o ho
      obtain ⟨c, hc, rfl⟩ := List.mem_map.mp ho
      refine Follows.honest hE ?_
      rcases List.mem_append.mp hc with hc | hc
      · exact hfollows c (List.mem_append_left _ hc)
      · rcases List.mem_cons.mp hc with rfl | hc
        · exact hdfollows
        · exact hfollows c (List.mem_append_right _ hc)
    have hcompletes := completes_of_releasesShare hE hne ha hb hamem hbmem
    have hrun := takeAll_from_start (E := E) [] _
      ⟨[], .str "no relay reachable", none⟩ hall rfl
    rw [List.append_nil] at hrun
    refine hrun.resolve_right ?_
    rintro ⟨_, _, _, hnone⟩
    exact hnone hcompletes
  · have hother : ∀ {c}, G.Follows E c → c ∈ pre ++ d :: post → c ∈ pre ++ post := by
      intro c hc hmem
      rcases List.mem_append.mp hmem with hmem | hmem
      · exact List.mem_append_left _ hmem
      · rcases List.mem_cons.mp hmem with rfl | hmem
        · exact absurd hc hdfollows
        · exact List.mem_append_right _ hmem
    have hcompletes := completes_of_releasesShare hE hne ha hb (hother ha.follows hamem)
      (hother hb.follows hbmem)
    rw [List.map_append] at hhonest hcompletes
    rw [List.map_append, List.map_cons]
    exact takeAll_unused hhonest (hd.resolve_left hdfollows) hcompletes _ rfl

end Custody

/-! ## A bad relay before two good ones -/

section Sample

/-- A platform whose keys are single bytes: two of them agree on their sum, and a ciphertext
starts with its key. -/
def sampleReleaseEnv : ReleaseEnv Rat UInt8 where
  indexing := ⟨fun _ => .ok 0, fun _ => none⟩
  publicRaw k := [k]
  deriveBits raw k := if raw.length = 1 then .ok [raw.headD 0 + k] else .error "DataError"
  sha256 b := b
  encrypt key _ data := key.headD 0 :: data
  decrypt key _ ct :=
    if ct.head? = some (key.headD 0) then .ok ct.tail else .error "OperationError"
  unhexOther _ := .error "not iterable"
  nullMessage := "null"

theorem sampleReleaseEnv_lawful : sampleReleaseEnv.Lawful where
  agree a b := ⟨[a + b], rfl, congrArg (fun k => Except.ok [k]) (UInt8.add_comm b a)⟩
  decrypt_encrypt _ _ _ := if_pos rfl
  publicRaw_ne_nil _ := List.cons_ne_nil _ _
  encrypt_ne_nil _ _ _ := List.cons_ne_nil _ _

def sampleCustody : Custody where
  secret := List.replicate 32 7
  random _ := List.replicate 32 5
  length_secret := rfl
  length_random _ := rfl

/-- What no owner has stored. -/
def forgedSecret : Bytes := List.replicate 32 9

/-- A challenged relay that releases the record. -/
def relayWith (record : CustodyRecord) : ReleaseAttempt Rat UInt8 where
  hasProof := true
  eph := 3
  reply := .released <|
    match sampleReleaseEnv.releaseResponse 5 [1] record (bytesToHex [3]) with
    | some body => .ok body
    | none => .error "release failed"

theorem releases_relayWith (data : Bytes) (x : Option Nat) (ts : Int) :
    Custody.Releases sampleReleaseEnv ⟨bytesToHex data, x, ts⟩
      (relayWith ⟨bytesToHex data, x, ts⟩) := by
  have hanswers : ∃ body, sampleReleaseEnv.releaseResponse 5 [1] ⟨bytesToHex data, x, ts⟩
      (bytesToHex [3]) = some body := by
    have hbits : sampleReleaseEnv.deriveBits [3] 5 = .ok [8] := rfl
    unfold ReleaseEnv.releaseResponse ReleaseEnv.wrapShareForClient
    simp only [hexToBytes_bytesToHex, hbits, Except.toOption, Option.bind_eq_bind,
      Option.bind_some, Option.pure_def, Option.map_some]
    exact ⟨_, rfl⟩
  obtain ⟨body, hbody⟩ := hanswers
  refine ⟨5, [1], body, List.cons_ne_nil _ _, ?_, hbody⟩
  unfold relayWith
  rw [hbody]

/-- The shares 1 and 2 of the split at 5. -/
def relayWithShare (x : Nat) : ReleaseAttempt Rat UInt8 :=
  relayWith ⟨bytesToHex (sampleCustody.share 5 x), some x, 5⟩

theorem releasesShare_relayWithShare {x : Nat} (hx : 0 < x ∧ x < 256) :
    sampleCustody.ReleasesShare sampleReleaseEnv 5 x (relayWithShare x) :=
  ⟨rfl, hx, releases_relayWith _ _ _⟩

end Sample

namespace Custody

/-- A share of another time is not used. -/
theorem release_unless_used_forged :
    releaseRecoveryShare sampleReleaseEnv
      ([] ++ relayWith ⟨bytesToHex forgedSecret, some 1, 4⟩ ::
        [relayWithShare 1, relayWithShare 2]) = .ok sampleCustody.secret := by
  have hone := releasesShare_relayWithShare (x := 1) (by decide)
  have htwo := releasesShare_relayWithShare (x := 2) (by decide)
  refine release_unless_used sampleReleaseEnv_lawful ?_ (.inr ?_)
    (show 1 ≠ 2 by decide) hone htwo (by simp) (by simp)
  · intro a ha
    rcases List.mem_cons.mp ha with rfl | ha
    · exact hone.follows
    · rcases List.mem_singleton.mp ha with rfl
      exact htwo.follows
  · have hforged := openAnswer_of_releases sampleReleaseEnv_lawful rfl
      (List.length_replicate) (releases_relayWith forgedSecret (some 1) 4)
    have hopenOne := openAnswer_share sampleReleaseEnv_lawful hone.1 hone.2.1.1 hone.2.2
    have hopenTwo := openAnswer_share sampleReleaseEnv_lawful htwo.1 htwo.2.1.1 htwo.2.2
    have hlater : Opened.shares ([relayWithShare 1, relayWithShare 2].map
        (openAnswer sampleReleaseEnv)) = [sampleCustody.kept 5 1, sampleCustody.kept 5 2] := by
      simp only [List.map_cons, List.map_nil, hopenOne, hopenTwo]
      rfl
    rw [hforged]
    refine Opened.not_used_of_alone Bool.false_ne_true fun s hs => ⟨fun h hh => ?_, ?_⟩
    · exact absurd hh List.not_mem_nil
    · rw [hlater]
      obtain rfl := Option.some.inj hs
      decide

/-- A record without `x` is taken for the full secret, whoever has sent it. -/
theorem forged_record_replaces_secret :
    sampleReleaseEnv.Lawful ∧
      (∀ a ∈ [relayWithShare 1, relayWithShare 2],
        sampleCustody.Follows sampleReleaseEnv a) ∧
      sampleCustody.ReleasesShare sampleReleaseEnv 5 1 (relayWithShare 1) ∧
      sampleCustody.ReleasesShare sampleReleaseEnv 5 2 (relayWithShare 2) ∧
      releaseRecoveryShare sampleReleaseEnv
        [relayWith ⟨bytesToHex forgedSecret, none, 4⟩, relayWithShare 1, relayWithShare 2] =
          .ok forgedSecret ∧
      forgedSecret ≠ sampleCustody.secret := by
  have hone := releasesShare_relayWithShare (x := 1) (by decide)
  have htwo := releasesShare_relayWithShare (x := 2) (by decide)
  refine ⟨sampleReleaseEnv_lawful, ?_, hone, htwo, ?_, by decide⟩
  · intro a ha
    rcases List.mem_cons.mp ha with rfl | ha
    · exact hone.follows
    · rcases List.mem_singleton.mp ha with rfl
      exact htwo.follows
  · have hforged := openAnswer_of_releases sampleReleaseEnv_lawful rfl
      (List.length_replicate) (releases_relayWith forgedSecret none 4)
    unfold releaseRecoveryShare
    rw [List.map_cons, hforged]
    rfl

end Custody

end NeuronWeb
