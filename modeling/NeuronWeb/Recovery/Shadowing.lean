/-
  Recovery/Shadowing: can a stranger put another blob in the place of an owner's?

  Nothing in a blob is signed, so all that ranks one is the time it declares.  A post does no
  harm when its blob is older than the owner's newest one, or so old that the relay drops it.
-/
import NeuronWeb.Directory.Names
import NeuronWeb.Recovery.KeyBlobs

set_option autoImplicit false

namespace NeuronWeb

open Relay

variable {F : Type} [JsNumber F]

/-! ## One post -/

namespace KeyBlobRelay

variable {T : JsText F} {s s' : KeyBlobRelay F}

/-- The relay does not file the blob: it archives nothing, a text is empty, or what it has of
this `pub` is not older. -/
def Drops (T : JsText F) (s : KeyBlobRelay F) (blob : Json F) : Prop :=
  (!s.archiveEnabled || Json.missing (blob.property "pub") ||
      Json.missing (blob.property "username") ||
      Json.missing (blob.property "encryptedKeys")) = true ∨
    ∃ pub existing, Json.asString (blob.property "pub") = some pub ∧
      s.keyBlobStore.get? pub = some existing ∧
      ∀ old new, blobTs T existing.blob = some old → blobTs T blob = some new →
        JsNumber.le new old = true

theorem archiveKeyBlob_cases {blob : Json F} {network : Network}
    (h : s.archiveKeyBlob T blob network = some s') :
    s' = s ∨ (¬ s.Drops T blob ∧ ∃ pub, Json.asString (blob.property "pub") = some pub ∧
      s' = { s with
        keyBlobStore := s.keyBlobStore.set pub ⟨network, blob.without "network"⟩ }) := by
  unfold archiveKeyBlob at h
  split at h
  · exact .inl (Option.some.inj h).symm
  · rename_i hcomplete
    cases hpub : Json.asString (blob.property "pub") with
    | none =>
      rw [hpub] at h
      exact .inl (Option.some.inj h).symm
    | some pub =>
      rw [hpub] at h
      simp only at h
      cases hget : s.keyBlobStore.get? pub with
      | none =>
        rw [hget] at h
        refine .inr ⟨?_, pub, rfl, (Option.some.inj h).symm⟩
        rintro (hincomplete | ⟨pub', existing, hpub', hexisting, -⟩)
        · exact hcomplete hincomplete
        · rw [hpub, Option.some.injEq] at hpub'
          rw [← hpub', hget] at hexisting
          cases hexisting
      | some existing =>
        rw [hget] at h
        simp only at h
        split at h
        · rename_i old new hold hnew
          split at h
          · exact .inl (Option.some.inj h).symm
          · rename_i hle
            refine .inr ⟨?_, pub, rfl, (Option.some.inj h).symm⟩
            rintro (hincomplete | ⟨pub', existing', hpub', hexisting, hdrop⟩)
            · exact hcomplete hincomplete
            · rw [hpub, Option.some.injEq] at hpub'
              rw [← hpub', hget, Option.some.injEq] at hexisting
              rw [← hexisting] at hdrop
              exact hle (hdrop old new hold hnew)
        · cases h

/-- What a post does to a relay: it is counted against the address, and its blob may be
archived. -/
theorem postKeyBlob_cases (T : JsText F) (s : KeyBlobRelay F) (req : KeyBlobPost F) (now : Int) :
    (∃ log, (s.postKeyBlob T req now).1 = { s with ipBlobLog := log } ∧
        log = (checkAndRecordIp s.ipBlobLog req.ip BLOB_IP_MAX_PER_DAY now).1) ∨
      ∃ body blob pub, (checkAndRecordIp s.ipBlobLog req.ip BLOB_IP_MAX_PER_DAY now).2 = true ∧
        req.body = .ok body ∧ postedBlob body = some blob ∧
        ¬ s.Drops T blob ∧
        Json.asString (blob.property "pub") = some pub ∧
        (s.postKeyBlob T req now).1 =
          { s with
            ipBlobLog := (checkAndRecordIp s.ipBlobLog req.ip BLOB_IP_MAX_PER_DAY now).1
            keyBlobStore := s.keyBlobStore.set pub ⟨req.network, blob.without "network"⟩ } := by
  unfold postKeyBlob
  simp only
  split
  · exact .inl ⟨_, rfl, rfl⟩
  · rename_i hallowed
    cases hbody : req.body with
    | error message => exact .inl ⟨_, rfl, rfl⟩
    | ok body =>
      simp only
      cases hblob : postedBlob body with
      | none => exact .inl ⟨_, rfl, rfl⟩
      | some blob =>
        simp only
        split
        · exact .inl ⟨_, rfl, rfl⟩
        · rename_i s' harchive
          rcases archiveKeyBlob_cases harchive with rfl | ⟨hkept, pub, hpub, rfl⟩
          · exact .inl ⟨_, rfl, rfl⟩
          · exact .inr ⟨body, blob, pub, by simpa using hallowed, rfl, hblob, hkept, hpub, rfl⟩

end KeyBlobRelay

theorem checkAndRecordIp_get?_ne {log : JsMap String IpWindow} {ip other : String} {max : Nat}
    {now : Int} (h : ip ≠ other) :
    (checkAndRecordIp log ip max now).1.get? other = log.get? other := by
  unfold checkAndRecordIp
  split
  · rfl
  · split
    · exact JsMap.get?_set_ne _ _ h
    · split
      · exact JsMap.get?_set_ne _ _ h
      · split
        · rfl
        · exact JsMap.get?_set_ne _ _ h

theorem checkAndRecordIp_congr {log log' : JsMap String IpWindow} {ip : String}
    (h : log.get? ip = log'.get? ip) (max : Nat) (now : Int) :
    (checkAndRecordIp log ip max now).2 = (checkAndRecordIp log' ip max now).2 := by
  unfold checkAndRecordIp
  rw [h]
  split
  · rfl
  · split
    · rfl
    · split
      · rfl
      · split <;> rfl

/-! ## The owner's blob -/

/-- A blob as a relay keeps it, and the time it declares. -/
structure OwnBlob (F : Type) where
  pub : String
  username : String
  network : Network
  blob : Json F
  stamp : F

namespace OwnBlob

variable (T : JsText F) (o : OwnBlob F)

/-- The blob is one that the app makes: its name is trimmed and in lower case. -/
structure WellFormed : Prop where
  pub : Json.asString (o.blob.property "pub") = some o.pub
  nonempty : o.pub ≠ ""
  username : Json.asString (o.blob.property "username") = some o.username
  canonical : T.canonical o.username = o.username
  usable : usableBlob o.blob = true
  stamp : blobTs T o.blob = some o.stamp

/-- The blob is about the account or its name. -/
def About (b : Json F) : Prop :=
  Json.asString (b.property "pub") = some o.pub ∨
    Json.asString (b.property "username") = some o.username

/-- The blob declares an older time. -/
def Older (b : Json F) : Prop := ∃ t, blobTs T b = some t ∧ JsNumber.lt t o.stamp = true

/-- The relay keeps the owner's blob. -/
def KeptBy (s : KeyBlobRelay F) : Prop := s.keyBlobStore.get? o.pub = some ⟨o.network, o.blob⟩

/-- What the relay has about the account or its name is the owner's blob, or older. -/
def TopOf (s : KeyBlobRelay F) : Prop :=
  ∀ row ∈ s.keyBlobStore.values, row.network = o.network → o.About row.blob →
    row.blob = o.blob ∨ o.Older T row.blob

/-- The blob is the newest that the owner has stored. -/
structure Stored (relays : List (KeyBlobRelay F)) : Prop extends o.WellFormed T where
  top : ∀ s ∈ relays, o.TopOf T s

variable (ip : String) (start : List (KeyBlobRelay F))

/-- A client at the address `ip` finds the owner's blob, by the account and by its name: where
a relay that kept it at the start answers, and its own database knows no other blob. -/
def Recoverable (relays : List (KeyBlobRelay F)) : Prop :=
  ∀ (reached : Nat → Bool) (now : Int),
    (∃ i s, start[i]? = some s ∧ o.KeptBy s ∧ reached i = true ∧
      (checkAndRecordIp s.ipBlobLog ip BLOB_IP_MAX_PER_DAY now).2 = true) →
    (∀ query : KeyBlobQuery, query = .pub o.pub ∨ query = .username o.username →
      fetchKeyBlobFromRelays T (keyBlobAnswers T relays reached
        (query.sent T ip o.network) now) = some (some o.blob)) ∧
    ∀ keyblobs : LocalKeyBlobs F, (∀ b ∈ keyblobs.newestFor T o.username, b = o.blob) →
      (findKeyBlobByUsername T keyblobs o.username (keyBlobAnswers T relays reached
        ((KeyBlobQuery.username o.username).sent T ip o.network) now)).2 = some (some o.blob)

/-- A post to the `n`-th relay. -/
structure Post (F : Type) where
  n : Nat
  req : KeyBlobPost F
  now : Int

def step (relays : List (KeyBlobRelay F)) (post : Post F) : List (KeyBlobRelay F) :=
  relays.modify post.n fun s => (s.postKeyBlob T post.req post.now).1

/-- The post comes from another address than the client's. -/
def FromElsewhere (_ : List (KeyBlobRelay F)) (post : Post F) : Prop := post.req.ip ≠ ip

/-- The relay refuses or drops the posted blob; or the blob is older than the owner's where it
is about the account or its name on the same network, and where it is filed under the account,
the relay does not keep the owner's. -/
def Harmless (relays : List (KeyBlobRelay F)) (post : Post F) : Prop :=
  ∀ s body blob, relays[post.n]? = some s →
    (checkAndRecordIp s.ipBlobLog post.req.ip BLOB_IP_MAX_PER_DAY post.now).2 = true →
    post.req.body = .ok body → KeyBlobRelay.postedBlob body = some blob → ¬ s.Drops T blob →
      (post.req.network = o.network → o.About blob → o.Older T blob) ∧
        (Json.asString (blob.property "pub") = some o.pub → ¬ o.KeptBy s)

end OwnBlob

namespace OwnBlob

variable {T : JsText F} {o : OwnBlob F} {ip : String} {start relays : List (KeyBlobRelay F)}

/-! ## What the blob without its network is -/

omit [JsNumber F] in
theorem about_without {b : Json F} : o.About (b.without "network") ↔ o.About b := by
  unfold About
  rw [Directory.property_without (by decide), Directory.property_without (by decide)]

theorem older_without {b : Json F} : o.Older T (b.without "network") ↔ o.Older T b := by
  unfold Older blobTs
  rw [Directory.property_without (by decide), Directory.property_without (by decide)]

/-! ## One relay, one fetch -/

/-- The blobs that can come up: the owner's, and older ones. -/
def Plays (T : JsText F) (o : OwnBlob F) (b : Json F) : Prop := b = o.blob ∨ o.Older T b

section

variable (h : o.WellFormed T)
include h

theorem Plays.stamp {b : Json F} (hb : o.Plays T b) : ∃ t, blobTs T b = some t := by
  rcases hb with rfl | ⟨t, ht, -⟩
  · exact ⟨_, h.stamp⟩
  · exact ⟨t, ht⟩

theorem tops [OrderedJsNumber F] :
    Contest.Tops (newerBlob T) (o.Plays T) o.blob where
  comparable x y hx hy := by
    obtain ⟨v, hv⟩ := hx.stamp h
    obtain ⟨w, hw⟩ := hy.stamp h
    unfold newerBlob
    rw [hv, hw]
    rfl
  wins x hx hne := by
    obtain ⟨t, ht, hlt⟩ := hx.resolve_left hne
    unfold newerBlob
    rw [h.stamp, ht]
    exact congrArg some hlt
  stands x hx hne := by
    obtain ⟨t, ht, hlt⟩ := hx.resolve_left hne
    unfold newerBlob
    rw [h.stamp, ht]
    simp only [OrderedJsNumber.lt_asymm t o.stamp hlt]
    exact fun heq => Bool.false_ne_true (Option.some.inj heq)

/-- The requests of the two queries. -/
def Asks (T : JsText F) (o : OwnBlob F) (req : KeyBlobGet) : Prop :=
  req.network = o.network ∧
    (req.pub = o.pub ∨ req.pub = "" ∧ T.canonical req.username = o.username)

theorem WellFormed.asks {query : KeyBlobQuery}
    (hquery : query = .pub o.pub ∨ query = .username o.username) :
    o.Asks T (query.sent T ip o.network) := by
  rcases hquery with rfl | rfl
  · exact ⟨rfl, .inl rfl⟩
  · refine ⟨rfl, .inr ⟨rfl, ?_⟩⟩
    show T.canonical (T.canonical o.username) = o.username
    rw [h.canonical, h.canonical]

variable {req : KeyBlobGet}

section

variable (hreq : o.Asks T req)
include hreq

theorem asked_eq_some
    {row : KeyBlobRow F} {b : Json F} (hb : KeyBlobRelay.asked T req row = some b) :
    b = row.blob ∧ row.network = o.network ∧ o.About row.blob := by
  unfold KeyBlobRelay.asked at hb
  split at hb
  · cases hb
  · rename_i hnetwork
    have hsame : row.network = o.network := by
      rw [← hreq.1]
      exact not_not.mp hnetwork
    split at hb
    · rename_i hempty
      split at hb
      · rename_i hname
        refine ⟨(Option.some.inj hb).symm, hsame, .inr ?_⟩
        rcases hreq.2 with hpub | ⟨-, husername⟩
        · exact absurd (hpub.symm.trans hempty) h.nonempty
        · rw [hname, husername]
      · cases hb
    · rename_i hnonempty
      split at hb
      · rename_i hpub
        refine ⟨(Option.some.inj hb).symm, hsame, .inl ?_⟩
        rcases hreq.2 with heq | ⟨hempty, -⟩
        · rw [hpub, heq]
        · exact absurd hempty hnonempty
      · cases hb

theorem asked_own : KeyBlobRelay.asked T req ⟨o.network, o.blob⟩ = some o.blob := by
  unfold KeyBlobRelay.asked
  rw [if_neg (not_not.mpr hreq.1.symm)]
  rcases hreq.2 with hpub | ⟨hempty, husername⟩
  · rw [if_neg (hpub ▸ h.nonempty), if_pos (by rw [h.pub, hpub])]
  · rw [if_pos hempty, if_pos (by rw [h.username, husername])]

theorem value_plays {now : Int} {s : KeyBlobRelay F} (hs : o.TopOf T s) {b : Json F}
    (hb : (s.getKeyBlob T req now).2.value = some b) : o.Plays T b := by
  unfold KeyBlobRelay.getKeyBlob at hb
  simp only at hb
  split at hb
  · cases hb
  · split at hb
    · cases hb
    · cases hb
    · rename_i best hcontest
      cases hb
      rcases Contest.mem_of_contest _ _ hcontest with hnone | ⟨row, hrow, hasked⟩
      · cases hnone
      · obtain ⟨rfl, hnetwork, habout⟩ := asked_eq_some h hreq hasked
        exact hs row hrow hnetwork habout

theorem value_own [OrderedJsNumber F] {now : Int} {s : KeyBlobRelay F} (hs : o.TopOf T s)
    (hkept : o.KeptBy s)
    (hallowed : (checkAndRecordIp s.ipBlobLog req.ip BLOB_IP_MAX_PER_DAY now).2 = true) :
    (s.getKeyBlob T req now).2.value = some o.blob := by
  have hcontest : Contest.contest (newerBlob T) (KeyBlobRelay.asked T req) none
      s.keyBlobStore.values = some (some o.blob) := by
    refine (tops h).contest_eq _ _ (fun z hz => (by cases hz)) ?_ (.inr ?_)
    · intro row hrow b hb
      obtain ⟨rfl, hnetwork, habout⟩ := asked_eq_some h hreq hb
      exact hs row hrow hnetwork habout
    · have hentry := (JsMap.get?_eq_some_iff s.keyBlobStore o.pub _).mp hkept
      exact ⟨_, List.mem_map_of_mem hentry, asked_own h hreq⟩
  unfold KeyBlobRelay.getKeyBlob
  simp only
  rw [if_neg (by rw [hallowed]; decide), hcontest]
  rfl

/-! ## All relays -/

theorem fetch_own [OrderedJsNumber F] {now : Int} {reached : Nat → Bool}
    (htop : ∀ s ∈ relays, o.TopOf T s) {i : Nat} {s : KeyBlobRelay F}
    (hi : relays[i]? = some s) (hkept : o.KeptBy s) (hreached : reached i = true)
    (hallowed : (checkAndRecordIp s.ipBlobLog req.ip BLOB_IP_MAX_PER_DAY now).2 = true) :
    fetchKeyBlobFromRelays T (keyBlobAnswers T relays reached req now) = some (some o.blob) := by
  refine (tops h).contest_eq _ _ (fun z hz => (by cases hz)) ?_ (.inr ?_)
  · intro answer hanswer b hb
    obtain ⟨n, hn, rfl⟩ := List.mem_mapIdx.mp hanswer
    have hvalue := (Option.filter_eq_some_iff.mp hb).1
    split at hvalue
    · exact value_plays h hreq (htop _ (List.getElem_mem hn)) hvalue
    · cases hvalue
  · obtain ⟨hn, rfl⟩ := List.getElem?_eq_some_iff.mp hi
    refine ⟨some o.blob, List.mem_mapIdx.mpr ⟨i, hn, ?_⟩, ?_⟩
    · rw [if_pos hreached, value_own h hreq (htop _ (List.getElem_mem hn)) hkept hallowed]
    · exact Option.filter_eq_some_iff.mpr ⟨rfl, h.usable⟩

end

/-! ## A run of posts -/

/-- What posts of strangers leave: the relays that kept the owner's blob keep it and know as
much of the client's address, and nothing outranks the blob. -/
structure Unharmed (T : JsText F) (o : OwnBlob F) (ip : String)
    (start relays : List (KeyBlobRelay F)) : Prop where
  kept : ∀ (i : Nat) (s : KeyBlobRelay F), start[i]? = some s → o.KeptBy s →
    ∃ s', relays[i]? = some s' ∧ o.KeptBy s' ∧ s'.ipBlobLog.get? ip = s.ipBlobLog.get? ip
  top : ∀ s ∈ relays, o.TopOf T s

theorem Unharmed.recoverable [OrderedJsNumber F]
    (hu : Unharmed T o ip start relays) : o.Recoverable T ip start relays := by
  intro reached now hreached
  obtain ⟨i, s, hi, hkept, hri, hallowed⟩ := hreached
  obtain ⟨s', hi', hkept', hlog⟩ := hu.kept i s hi hkept
  rw [← checkAndRecordIp_congr hlog] at hallowed
  have hfetch : ∀ query : KeyBlobQuery, query = .pub o.pub ∨ query = .username o.username →
      fetchKeyBlobFromRelays T (keyBlobAnswers T relays reached
        (query.sent T ip o.network) now) = some (some o.blob) := by
    intro query hquery
    refine fetch_own h (h.asks hquery) hu.top hi' hkept' hri ?_
    rcases hquery with rfl | rfl
    · exact hallowed
    · exact hallowed
  refine ⟨hfetch, fun keyblobs hlocal => ?_⟩
  unfold findKeyBlobByUsername
  cases hnewest : keyblobs.newestFor T o.username with
  | some b =>
    rw [hlocal b hnewest]
  | none =>
    simp only
    rw [hfetch _ (.inr rfl)]
    simp only
    rw [h.pub]

end

theorem TopOf.archive {s : KeyBlobRelay F} (hs : o.TopOf T s) {pub : String} {network : Network}
    {blob : Json F} {log : JsMap String IpWindow}
    (hblob : network = o.network → o.About blob → o.Older T blob) :
    o.TopOf T { s with
      ipBlobLog := log
      keyBlobStore := s.keyBlobStore.set pub ⟨network, blob.without "network"⟩ } := by
  intro row hrow hnetwork habout
  obtain ⟨⟨key, row'⟩, hentry, rfl⟩ := List.mem_map.mp hrow
  have hget := (JsMap.get?_eq_some_iff _ key row').mpr hentry
  rw [JsMap.get?_set] at hget
  split at hget
  · cases hget
    exact .inr (older_without.mpr (hblob hnetwork (about_without.mp habout)))
  · exact hs row' (List.mem_map_of_mem ((JsMap.get?_eq_some_iff _ key row').mp hget)) hnetwork
      habout

theorem Unharmed.step (hu : Unharmed T o ip start relays) {post : Post F}
    (helsewhere : FromElsewhere ip relays post) (hharmless : o.Harmless T relays post) :
    Unharmed T o ip start (step T relays post) := by
  have hone : ∀ s, relays[post.n]? = some s → o.TopOf T s →
      o.TopOf T (s.postKeyBlob T post.req post.now).1 ∧
        (o.KeptBy s → o.KeptBy (s.postKeyBlob T post.req post.now).1) ∧
        (s.postKeyBlob T post.req post.now).1.ipBlobLog.get? ip = s.ipBlobLog.get? ip := by
    intro s hs htop
    rcases s.postKeyBlob_cases T post.req post.now with
      ⟨log, hlog, rfl⟩ | ⟨body, blob, pub, hallowed, hbody, hblob, hdrops, hpub, harchived⟩
    · rw [hlog]
      exact ⟨htop, id, checkAndRecordIp_get?_ne helsewhere⟩
    · obtain ⟨holder, hforeign⟩ := hharmless s body blob hs hallowed hbody hblob hdrops
      rw [harchived]
      refine ⟨htop.archive holder, fun hkept => ?_, checkAndRecordIp_get?_ne helsewhere⟩
      have hne : pub ≠ o.pub := by
        rintro rfl
        exact hforeign hpub hkept
      exact (JsMap.get?_set_ne _ _ hne).trans hkept
  constructor
  · intro i s hi hkept
    obtain ⟨s', hi', hkept', hlog⟩ := hu.kept i s hi hkept
    by_cases hn : post.n = i
    · subst hn
      obtain ⟨-, hkeeps, hsame⟩ := hone s' hi' (hu.top s' (List.mem_of_getElem? hi'))
      refine ⟨_, ?_, hkeeps hkept', hsame.trans hlog⟩
      unfold OwnBlob.step
      rw [List.getElem?_modify, hi']
      simp
    · refine ⟨s', ?_, hkept', hlog⟩
      unfold OwnBlob.step
      rw [List.getElem?_modify, hi']
      simp [hn]
  · intro s hs
    obtain ⟨i, hi, rfl⟩ := List.mem_iff_getElem.mp hs
    unfold OwnBlob.step at hi ⊢
    rw [List.getElem_modify]
    rw [List.length_modify] at hi
    have htop := hu.top _ (List.getElem_mem hi)
    split
    · rename_i hn
      exact (hone _ (by rw [hn]; exact List.getElem?_eq_getElem hi) htop).1
    · exact htop

/-- In a run of posts from other addresses that are dropped, or older than the owner's newest
blob and not in its place, a client finds that blob. -/
theorem recoverable_always [OrderedJsNumber F] (T : JsText F) (o : OwnBlob F) (ip : String)
    (start : List (KeyBlobRelay F)) (hstart : o.Stored T start) (posts : List (Post F))
    (hposts : Run.StepsMeet (step T)
      (fun relays post => FromElsewhere ip relays post ∧ o.Harmless T relays post) start posts) :
    Run.Always (step T) (o.Recoverable T ip start) start posts :=
  Run.always_of_invariant (I := Unharmed T o ip start)
    (fun _ _ hu hpost => hu.step hpost.1 hpost.2)
    (fun _ hu => hu.recoverable hstart.toWellFormed)
    ⟨fun _ s hi hkept => ⟨s, hi, hkept, rfl⟩, hstart.top⟩ hposts

/-! ## A stranger's blob -/

section Examples

/-- A blob of an account, made at some time. -/
def sampleBlob (pub username keys : String) (updatedAt : Int) : Json Rat :=
  .obj [("pub", .str pub), ("username", .str username), ("encryptedKeys", .str keys),
    ("updatedAt", .int updatedAt)]

/-- The newest blob of the account `aa`, whose name is `alice`. -/
def alices : OwnBlob Rat := ⟨"aa", "alice", .testnet, sampleBlob "aa" "alice" "keys" 5, 5⟩

/-- One relay keeps it, the other has missed it. -/
def sampleRelays : List (KeyBlobRelay Rat) :=
  [⟨true, JsMap.empty, JsMap.empty.set "aa" ⟨.testnet, sampleBlob "aa" "alice" "keys" 5⟩⟩,
    ⟨true, JsMap.empty, JsMap.empty⟩]

theorem stored_alices : alices.Stored Sample.jsText sampleRelays where
  pub := rfl
  nonempty := by decide
  username := rfl
  canonical := by decide +kernel
  usable := rfl
  stamp := rfl
  top := by
    intro s hs row hrow _ _
    left
    rcases List.mem_cons.mp hs with rfl | hs
    · rw [List.mem_singleton.mp hrow]
      rfl
    · rw [List.mem_singleton.mp hs] at hrow
      cases hrow

/-- A stranger posts a blob. -/
def strangerPosts (n : Nat) (blob : Json Rat) : Post Rat :=
  ⟨n, ⟨"1.2.3.4", .testnet, .ok (.obj [("blob", blob)])⟩, 0⟩

/-- A stranger posts an older blob of alice's name to the relay that has missed hers. -/
theorem recoverable_always_older :
    alices.Stored Sample.jsText sampleRelays ∧
      Run.Always (step Sample.jsText) (alices.Recoverable Sample.jsText "5.6.7.8" sampleRelays)
        sampleRelays [strangerPosts 1 (sampleBlob "mallory" "alice" "junk" 4)] := by
  refine ⟨stored_alices, recoverable_always Sample.jsText alices "5.6.7.8" sampleRelays
    stored_alices _ ⟨⟨?_, ?_⟩, trivial⟩⟩
  · show "1.2.3.4" ≠ "5.6.7.8"
    decide
  · intro s body blob _ _ hbody hblob _
    cases hbody
    cases hblob
    exact ⟨fun _ _ => ⟨4, rfl, by decide +kernel⟩, fun hpub => absurd hpub (by decide +kernel)⟩

/-- A stranger posts a newer blob under the account, and the relay throws the owner's away. -/
theorem newer_post_displaces :
    ¬ ∀ (T : JsText Rat) (o : OwnBlob Rat) (ip : String) (start : List (KeyBlobRelay Rat))
      (posts : List (Post Rat)), o.Stored T start →
      Run.StepsMeet (step T) (FromElsewhere ip) start posts →
      Run.Always (step T) (o.Recoverable T ip start) start posts := by
  intro hall
  have hrun := hall Sample.jsText alices "5.6.7.8" sampleRelays
    [strangerPosts 0 (sampleBlob "aa" "alice" "junk" 6)] stored_alices
    ⟨by show "1.2.3.4" ≠ "5.6.7.8"; decide, trivial⟩
  have hfound := (hrun.2 (fun _ => true) 1
    ⟨0, _, rfl, rfl, rfl, by decide +kernel⟩).1 (.pub "aa") (.inl rfl)
  have hkeys := congrArg (fun found : Option (Option (Json Rat)) =>
    (found.bind id).bind fun b => Json.asString (b.property "encryptedKeys")) hfound
  revert hkeys
  decide +kernel

end Examples

end OwnBlob

end NeuronWeb
