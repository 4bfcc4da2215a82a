/-
  Directory/Names: whom a client finds under a name that relays have attested.

  Each relay answers for a name from its own registry, and where it has attested nobody, with
  the first record that it holds of that name, whoever signed it. Which record stands at the end
  is a contest (`Foundation/Contest`), and `attested_names_kept_iff` says when every contest
  that an attesting relay takes part in is won by the account it attested.
-/
import NeuronWeb.Directory.SignedFields
import NeuronWeb.Foundation.Contest

set_option autoImplicit false

namespace NeuronWeb

open Contest (Wins Secure Orderly)

variable {F : Type}

section Comparing

variable [JsNumber F]

theorem Json.strictEq_comm : ∀ v w : Json F, v.strictEq w = w.strictEq v := by
  have hsame : ∀ x y : F, JsNumber.same x y = JsNumber.same y x := by
    intro x y
    unfold JsNumber.same
    exact Bool.and_comm _ _
  intro v w
  cases v <;> cases w <;> simp only [Json.strictEq, hsame, Bool.beq_comm]

theorem samePub_comm (x y : Json F) : samePub x y = samePub y x := by
  unfold samePub
  cases x.property "pub" <;> cases y.property "pub" <;> try rfl
  exact Json.strictEq_comm _ _

/-- The record names the account. -/
def OfAccount (accountId : String) (rec : Json F) : Prop :=
  Json.asString (rec.property "pub") = some accountId

omit [JsNumber F] in
theorem OfAccount.property {accountId : String} {rec : Json F} (h : OfAccount accountId rec) :
    rec.property "pub" = some (.str accountId) := by
  unfold OfAccount at h
  cases hpub : rec.property "pub" with
  | none =>
    rw [hpub] at h
    cases h
  | some v =>
    rw [hpub] at h
    cases v with
    | str s =>
      cases h
      rfl
    | _ => cases h

theorem samePub_of_ofAccount {accountId : String} {x y : Json F} (hx : OfAccount accountId x)
    (hy : OfAccount accountId y) : samePub x y = true := by
  unfold samePub
  rw [hx.property, hy.property]
  exact beq_self_eq_true accountId

variable [OrderedJsNumber F]

omit [OrderedJsNumber F] in
theorem replaces_eq_some_true {T : JsText F} {x y : Json F} :
    replaces T x y = some true ↔
      if samePub x y then
        ∃ v w, versionOf T x = some v ∧ versionOf T y = some w ∧ JsNumber.lt w v = true
      else
        ∃ v w, createdAtOf T x = some v ∧ createdAtOf T y = some w ∧
          JsNumber.lt w v = true := by
  unfold replaces
  split
  · cases versionOf T x <;> cases versionOf T y <;> simp
  · cases createdAtOf T x <;> cases createdAtOf T y <;> simp

theorem not_both_above {p q : Option F}
    (h : ∃ v w, p = some v ∧ q = some w ∧ JsNumber.lt w v = true) :
    ¬ ∃ v w, q = some v ∧ p = some w ∧ JsNumber.lt w v = true := by
  rintro ⟨w', v', hw', hv', hlt'⟩
  obtain ⟨v, w, hv, hw, hlt⟩ := h
  rw [hv', Option.some.injEq] at hv
  rw [hw', Option.some.injEq] at hw
  rw [hv, hw, OrderedJsNumber.lt_asymm w v hlt] at hlt'
  cases hlt'

theorem orderly_replaces (T : JsText F) (accountId : String) :
    Orderly (replaces T) (OfAccount accountId) where
  asymm x y hxy hyx := by
    rw [replaces_eq_some_true] at hxy hyx
    rw [samePub_comm y x] at hyx
    split at hxy
    · next hsame =>
        rw [if_pos hsame] at hyx
        exact not_both_above hxy hyx
    · next hother =>
        rw [if_neg hother] at hyx
        exact not_both_above hxy hyx
  trans x y z hx hy hz hyx hzy := by
    rw [replaces_eq_some_true, if_pos (samePub_of_ofAccount hy hx)] at hyx
    rw [replaces_eq_some_true, if_pos (samePub_of_ofAccount hz hy)] at hzy
    rw [replaces_eq_some_true, if_pos (samePub_of_ofAccount hz hx)]
    obtain ⟨v, w, hv, hw, hlt⟩ := hyx
    obtain ⟨u, v', hu, hv', hlt'⟩ := hzy
    rw [hv, Option.some.injEq] at hv'
    rw [← hv'] at hlt'
    exact ⟨u, w, hu, hw, JsNumber.lt_trans hlt hlt'⟩

end Comparing

namespace Directory

variable [JsNumber F] (P : Primitives F) (T : JsText F) (d : Directory F) (network : Network)

/-- What a relay answers on the network when it is asked for the name. -/
def nameAnswer (u relay : String) : Option (Json F) :=
  (d.relays relay).resolve T network ((ResolveQuery.username u).sent T)

/-- The answer, if the client weighs it. -/
def weighedAnswer (u relay : String) : Option (Json F) :=
  (d.nameAnswer T network u relay).filter (answersQuery P T (.username u))

/-- The relay attested the name to the account and archived a record of the account. -/
def Attested (u accountId relay : String) : Prop :=
  (∃ claim, (d.relays relay).usernameRegistry.get? u = some claim ∧
    claim.accountId = accountId) ∧
  (d.relays relay).accountStore.has (accountKey network accountId) = true

/-- The relay has not attested the name to another account. -/
def AttestsNoOther (u accountId relay : String) : Prop :=
  ∀ claim, (d.relays relay).usernameRegistry.get? u = some claim → claim.accountId = accountId

/-- Whichever relays a client asks, in whatever order: if one of them attested the name to the
account and archived its record, and none attested it to another, the client finds a record of
the account. -/
def NameKept (u accountId : String) : Prop :=
  ∀ relays : List String, relays.Nodup →
    (∀ relay ∈ relays, d.AttestsNoOther u accountId relay) →
    (∃ relay ∈ relays, d.Attested network u accountId relay) →
    ∃ rec, resolveAccountFromRelays P T (.username u)
        (relays.map (d.nameAnswer T network u)) = some (some rec) ∧ OfAccount accountId rec

/-- What keeps a name.  All answers are those of relays that attested the name to no other
account. -/
structure NameSecure (u accountId : String) : Prop where
  /-- The record that an attesting relay archived is of the account, under the name. -/
  named : ∀ r, d.Attested network u accountId r → ∀ row,
    (d.relays r).accountStore.get? (accountKey network accountId) = some row →
    OfAccount accountId row.record ∧ usernameOf T row.record = some u
  /-- Any two answers can be compared. -/
  comparable : ∀ r i j x y, d.Attested network u accountId r → d.AttestsNoOther u accountId i →
    d.AttestsNoOther u accountId j → i ≠ j → d.weighedAnswer P T network u i = some x →
    d.weighedAnswer P T network u j = some y → (replaces T y x).isSome = true
  /-- An attested answer was created after every answer of another account. -/
  prevails : ∀ r b x y, d.Attested network u accountId r → d.AttestsNoOther u accountId b →
    d.weighedAnswer P T network u r = some x → d.weighedAnswer P T network u b = some y →
    ¬ OfAccount accountId y → replaces T x y = some true
  /-- A record of the account that was created before an answer of another account has a lower
  version than every attested answer. -/
  shields : ∀ r i b x z y, d.Attested network u accountId r → d.AttestsNoOther u accountId i →
    d.AttestsNoOther u accountId b → d.weighedAnswer P T network u r = some x →
    d.weighedAnswer P T network u i = some z → OfAccount accountId z →
    d.weighedAnswer P T network u b = some y → ¬ OfAccount accountId y →
    replaces T y z = some true → replaces T x z = some true

variable {P T d network}

omit [JsNumber F] in
theorem Attested.attestsNoOther {u accountId r : String}
    (h : d.Attested network u accountId r) : d.AttestsNoOther u accountId r := by
  intro claim hclaim
  obtain ⟨claim', hclaim', haccount⟩ := h.1
  rw [hclaim, Option.some.injEq] at hclaim'
  rw [hclaim', haccount]

theorem resolveAccountFromRelays_eq (u : String) (relays : List String) :
    resolveAccountFromRelays P T (.username u) (relays.map (d.nameAnswer T network u)) =
      Contest.contest (replaces T) (d.weighedAnswer P T network u) none relays := by
  have hstep : ∀ best relay, weigh P T (.username u) best (d.nameAnswer T network u relay) =
      Contest.challenge (replaces T) best (d.weighedAnswer P T network u relay) := by
    intro best relay
    unfold weigh weighedAnswer Contest.challenge
    cases d.nameAnswer T network u relay with
    | none => rfl
    | some rec =>
      dsimp only
      split
      · next hweighed =>
          rw [Option.filter_some, if_pos hweighed]
          cases best <;> rfl
      · next hdropped => rw [Option.filter_some, if_neg hdropped]
  unfold resolveAccountFromRelays Contest.contest
  rw [List.foldlM_map]
  congr 1
  funext best relay
  exact hstep best relay

theorem wins_iff_nameKept {u accountId : String} :
    Wins (replaces T) (d.weighedAnswer P T network u) (d.AttestsNoOther u accountId)
        (d.Attested network u accountId) (OfAccount accountId) ↔
      NameKept P T d network u accountId := by
  unfold Wins NameKept
  simp only [resolveAccountFromRelays_eq]

/-! ## What the archive holds -/

/-- Every archived record is verified. -/
def Verified (P : Primitives F) (d : Directory F) : Prop :=
  ∀ relay key row, (d.relays relay).accountStore.get? key = some row →
    Json.missing (row.record.property "pub") = false ∧
    Json.missing (row.record.property "username") = false ∧
    verifyAccountRecordSig P row.record = true

theorem get?_archiveAccountRecord {accountStore : JsMap String (AccountRow F)} {acc : Json F}
    {key : String} {row : AccountRow F}
    (h : (archiveAccountRecord P T accountStore acc network).get? key = some row) :
    accountStore.get? key = some row ∨
      Json.missing (row.record.property "pub") = false ∧
      Json.missing (row.record.property "username") = false ∧
      verifyAccountRecordSig P row.record = true := by
  unfold archiveAccountRecord at h
  split at h
  · exact .inl h
  · next hpresent =>
      rw [Bool.or_eq_true, not_or, Bool.not_eq_true, Bool.not_eq_true] at hpresent
      split at h
      · exact .inl h
      · next hverify =>
          rw [Bool.not_eq_false] at hverify
          split at h
          · exact .inl h
          · dsimp only at h
            split at h
            · exact .inl h
            · rw [JsMap.get?_set] at h
              split at h
              · rw [← Option.some.inj h]
                exact .inr ⟨hpresent.1, hpresent.2, hverify⟩
              · exact .inl h

theorem Verified.step (h : Verified P d) (input : Input F) : Verified P (d.step P T input) := by
  intro name key row hget
  cases input with
  | gossip relay acc network byStranger =>
    replace hget : (if name = relay then _ else d.relays name).accountStore.get? key = _ := hget
    split at hget
    · rcases get?_archiveAccountRecord hget with hold | hnew
      · exact h relay key row hold
      · exact hnew
    · exact h name key row hget
  | attest relay username claim =>
    replace hget : (if name = relay then _ else d.relays name).accountStore.get? key = _ := hget
    split at hget
    · exact h relay key row hget
    · exact h name key row hget
  | resolve identifier answerers => exact h name key row hget

/-! ## An attested answer -/

omit [JsNumber F] in
theorem property_without {key other : String} (hne : other ≠ key) (v : Json F) :
    (v.without key).property other = v.property other := by
  cases v with
  | obj fields =>
    show JsMap.find other (fields.filter fun field => decide (field.1 ≠ key)) =
      JsMap.find other fields
    induction fields with
    | nil => rfl
    | cons field rest ih =>
      obtain ⟨k, w⟩ := field
      by_cases hk : k = key
      · rw [List.filter_cons_of_neg (by rw [hk]; simp), ih]
        show _ = if k = other then some w else JsMap.find other rest
        rw [if_neg fun heq => hne (heq.symm.trans hk)]
      · rw [List.filter_cons_of_pos (by simp [hk])]
        show (if k = other then some w else _) = if k = other then some w else _
        rw [ih]
  | _ => rfl

theorem answersQuery_clean {row : AccountRow F} {u : String}
    (hpub : Json.missing (row.record.property "pub") = false)
    (husername : Json.missing (row.record.property "username") = false)
    (hverify : verifyAccountRecordSig P row.record = true) (hu : T.canonical u = u) :
    answersQuery P T (.username u) row.clean = true ↔ usernameOf T row.record = some u := by
  have hsig : verifyAccountRecordSig P row.clean = verifyAccountRecordSig P row.record := by
    unfold verifyAccountRecordSig accountRecordPayload AccountRow.clean
    simp only [property_without (show "_sig" ≠ "network" by decide),
      property_without (show "pub" ≠ "network" by decide),
      property_without (show "username" ≠ "network" by decide),
      property_without (show "createdAt" ≠ "network" by decide),
      property_without (show "faceMapHash" ≠ "network" by decide)]
  have hname : usernameOf T row.clean = usernameOf T row.record := by
    unfold usernameOf AccountRow.clean
    rw [property_without (by decide)]
  unfold answersQuery
  rw [hsig, hname, hverify]
  unfold AccountRow.clean
  rw [property_without (by decide), property_without (by decide), hpub, husername]
  dsimp only
  rw [hu]
  simp

theorem nameAnswer_of_attested {u accountId r : String} {row : AccountRow F}
    (h : d.Attested network u accountId r)
    (hrow : (d.relays r).accountStore.get? (accountKey network accountId) = some row)
    (hu : T.canonical u = u) (hnamed : u ≠ "") (haccount : accountId ≠ "") :
    d.nameAnswer T network u r = some row.clean := by
  obtain ⟨⟨claim, hclaim, hsame⟩, -⟩ := h
  show (d.relays r).resolve T network (.username (T.canonical u)) = _
  unfold DirectoryRelay.resolve
  dsimp only
  rw [hu, hu, if_neg hnamed, hclaim, Option.bind_some, hsame, if_neg haccount, hrow,
    Option.some_or, Option.map_some]

theorem secure_iff_nameSecure {u accountId : String} (hverified : Verified P d)
    (hu : T.canonical u = u) (hnamed : u ≠ "") (haccount : accountId ≠ "") :
    Secure (replaces T) (d.weighedAnswer P T network u) (d.AttestsNoOther u accountId)
        (d.Attested network u accountId) (OfAccount accountId) ↔
      NameSecure P T d network u accountId := by
  have hclean : ∀ row : AccountRow F,
      OfAccount accountId row.clean ↔ OfAccount accountId row.record := by
    intro row
    unfold OfAccount AccountRow.clean
    rw [property_without (by decide)]
  have hanswer : ∀ r row, d.Attested network u accountId r →
      (d.relays r).accountStore.get? (accountKey network accountId) = some row →
      d.weighedAnswer P T network u r =
        if usernameOf T row.record = some u then some row.clean else none := by
    intro r row hr hrow
    obtain ⟨hpub, husername, hverify⟩ := hverified r _ row hrow
    have hiff := answersQuery_clean (T := T) hpub husername hverify hu
    unfold weighedAnswer
    rw [nameAnswer_of_attested hr hrow hu hnamed haccount, Option.filter_some]
    by_cases hname : usernameOf T row.record = some u
    · rw [if_pos (hiff.mpr hname), if_pos hname]
    · rw [if_neg fun h => hname (hiff.mp h), if_neg hname]
  constructor
  · intro h
    refine ⟨fun r hr row hrow => ?_, h.comparable, h.prevails, h.shields⟩
    obtain ⟨x, hx, hown⟩ := h.brings r hr
    rw [hanswer r row hr hrow] at hx
    split at hx
    · next hname =>
        rw [← Option.some.inj hx, hclean] at hown
        exact ⟨hown, hname⟩
    · cases hx
  · intro h
    refine ⟨fun r hr => ?_, h.comparable, h.prevails, h.shields⟩
    obtain ⟨row, hrow⟩ := (JsMap.has_iff _ _).mp hr.2
    obtain ⟨hown, hname⟩ := h.named r hr row hrow
    exact ⟨row.clean, by rw [hanswer r row hr hrow, if_pos hname], (hclean row).mpr hown⟩

/-- After every interleaving of gossip and attestations a name that is attested to an account
is kept, whichever relays are asked, exactly when it is secure. -/
theorem attested_names_kept_iff [OrderedJsNumber F] (P : Primitives F) (T : JsText F)
    (start : Directory F) (hempty : ∀ relay, (start.relays relay).accountStore = .empty)
    (inputs : List (Input F)) (network : Network) (u accountId : String)
    (hu : T.canonical u = u) (hnamed : u ≠ "") (haccount : accountId ≠ "") :
    NameKept P T (Run.final (step P T) start inputs) network u accountId ↔
      NameSecure P T (Run.final (step P T) start inputs) network u accountId := by
  have hverified : Verified P (Run.final (step P T) start inputs) := by
    refine Run.invariant_final (C := fun _ _ => True) (fun _ input h _ => h.step input) ?_
      (Run.stepsMeet_of_forall (fun _ _ => trivial) _ _)
    intro relay key row hrow
    rw [hempty] at hrow
    cases hrow
  rw [← wins_iff_nameKept, Contest.wins_iff_secure (orderly_replaces T accountId)
    fun r hr => hr.attestsNoOther]
  exact secure_iff_nameSecure hverified hu hnamed haccount

section Samples

open NeuronWeb.Sample (jsText signedRecord)

/-- A relay attests the name and archives the owner's record; another one, which has not
attested anybody, archives a stranger's record of the same name that says it was created
later. -/
def aCapture : List (Input Rat) :=
  [.gossip "r" (signedRecord "02a" "ann" 5 1 "a") .testnet false,
    .attest "r" "ann" ⟨"02a", "n"⟩,
    .gossip "s" (signedRecord "02b" "ann" 9 1 "b") .testnet true]

theorem attested_names_kept_iff_aCapture :
    NameKept Sample.primitives jsText (Run.final (step Sample.primitives jsText) blank aCapture)
        .testnet "ann" "02a" ↔
      NameSecure Sample.primitives jsText
        (Run.final (step Sample.primitives jsText) blank aCapture) .testnet "ann" "02a" :=
  attested_names_kept_iff Sample.primitives jsText blank (fun _ => rfl) aCapture .testnet "ann"
    "02a" (by decide) (by decide) (by decide)

/-- Whether a relay has attested the name to the account alone, looked up. -/
def showsNoOther (d : Directory Rat) (u accountId relay : String) : Bool :=
  ((d.relays relay).usernameRegistry.get? u).all fun claim => claim.accountId = accountId

theorem attestsNoOther_of_shows {d : Directory Rat} {u accountId relay : String}
    (h : showsNoOther d u accountId relay = true) : d.AttestsNoOther u accountId relay := by
  intro claim hclaim
  rw [showsNoOther, hclaim] at h
  exact decide_eq_true_eq.mp h

/-- The account of the record that is found. -/
def foundAccount (found : Option (Option (Json Rat))) : Option String :=
  found.join.bind fun rec => Json.asString (rec.property "pub")

/-- The client finds the stranger. -/
theorem name_captured :
    ¬ NameKept Sample.primitives jsText
      (Run.final (step Sample.primitives jsText) blank aCapture) .testnet "ann" "02a" := by
  intro h
  have hall : ∀ relay ∈ ["r", "s"], showsNoOther
      (Run.final (step Sample.primitives jsText) blank aCapture) "ann" "02a" relay = true := by
    decide +kernel
  have hattested : (Run.final (step Sample.primitives jsText) blank aCapture).Attested .testnet
      "ann" "02a" "r" := ⟨⟨⟨"02a", "n"⟩, rfl, rfl⟩, by decide +kernel⟩
  obtain ⟨rec, hrec, hown⟩ := h ["r", "s"] (by decide)
    (fun relay hmem => attestsNoOther_of_shows (hall relay hmem))
    ⟨"r", List.mem_cons_self, hattested⟩
  have hfound := congrArg foundAccount hrec
  have hstranger : foundAccount (some (some rec)) = some "02b" :=
    hfound.symm.trans (by decide +kernel)
  rw [show foundAccount (some (some rec)) = some "02a" from hown] at hstranger
  exact absurd hstranger (by decide)

end Samples

end Directory

end NeuronWeb
