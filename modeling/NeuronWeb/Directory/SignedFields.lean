/-
  Directory/SignedFields: what a stranger's copies of signed records can do.

  The same run is taken twice: once as it happens, once without the records and answers of the
  stranger. While none of the stranger's copies is taken anywhere, the two runs are one
  (`only_signed_counts`).
-/
import NeuronWeb.Directory.Sample
import NeuronWeb.Foundation.Run

set_option autoImplicit false

namespace NeuronWeb

variable {F : Type} [JsNumber F]

/-- Some relays, by name, and a client. -/
structure Directory (F : Type) where
  relays : String → DirectoryRelay F
  client : DirectoryClient F

/-- Where one answer of a `/resolve` round comes from. -/
inductive Answerer (F : Type) where
  | relay (name : String)
  /-- A relay that the stranger runs. -/
  | stranger (answer : Json F)
  | unreachable

namespace Directory

/-- What happens: gossip brings a record to a relay, a relay attests a name, the client
resolves an identifier. -/
inductive Input (F : Type) where
  | gossip (relay : String) (acc : Json F) (network : Network) (byStranger : Bool)
  | attest (relay : String) (username : String) (claim : UsernameClaim)
  | resolve (identifier : String) (answerers : List (Answerer F))

/-- A relay changes. -/
def setRelay (d : Directory F) (name : String) (relay : DirectoryRelay F) : Directory F :=
  { d with relays := fun other => if other = name then relay else d.relays other }

/-- What one answerer sends to the client. -/
def answerFrom (T : JsText F) (d : Directory F) (query : ResolveQuery) :
    Answerer F → Option (Json F)
  | .relay name => (d.relays name).resolve T d.client.network (query.sent T)
  | .stranger answer => some answer
  | .unreachable => none

variable (P : Primitives F) (T : JsText F)

def step (d : Directory F) : Input F → Directory F
  | .gossip relay acc network _ =>
    d.setRelay relay
      { d.relays relay with
        accountStore := archiveAccountRecord P T (d.relays relay).accountStore acc network }
  | .attest relay username claim =>
    d.setRelay relay
      { d.relays relay with
        usernameRegistry := (d.relays relay).usernameRegistry.set username claim }
  | .resolve identifier answerers =>
    { d with
      client := d.client.resolveAccount P T identifier
        (answerers.map (d.answerFrom T (DirectoryClient.queryFor T identifier))) }

/-! ## The run without the stranger -/

def honest : Answerer F → Bool
  | .stranger _ => false
  | _ => true

/-- The input without what the stranger sends; `none` when that is all of it. -/
def Input.withoutStranger : Input F → Option (Input F)
  | .gossip relay acc network byStranger =>
    if byStranger then none else some (.gossip relay acc network false)
  | .attest relay username claim => some (.attest relay username claim)
  | .resolve identifier answerers =>
    some (.resolve identifier (answerers.filter honest))

/-- The directory as it is, and as it would be had the stranger sent nothing. -/
structure Twin (F : Type) where
  actual : Directory F
  quiet : Directory F

def Twin.step (t : Twin F) (input : Input F) : Twin F where
  actual := t.actual.step P T input
  quiet := (input.withoutStranger).elim t.quiet (t.quiet.step P T)

/-- What is archived, registered and cached for the account is the same in both. -/
def Twin.SameFor (accountId : String) (t : Twin F) : Prop :=
  (∀ (relay : String) (network : Network),
    (t.actual.relays relay).accountStore.get? (accountKey network accountId) =
      (t.quiet.relays relay).accountStore.get? (accountKey network accountId)) ∧
  t.actual.client.accountsByPub.get? accountId = t.quiet.client.accountsByPub.get? accountId ∧
  t.actual.client.accounts.get? accountId = t.quiet.client.accounts.get? accountId

/-! ## When a copy is not taken -/

/-- A relay does not take the record: it does not verify, or it is the archived one, or it is
older than that. -/
def LeftOut (d : Directory F) (relay : String) (acc : Json F) (network : Network) : Prop :=
  verifyAccountRecordSig P acc = true → ∀ pub, Json.written (acc.property "pub") = some pub →
    ∃ existing, (d.relays relay).accountStore.get? (accountKey network pub) = some existing ∧
      (existing = ⟨network, acc⟩ ∨ outdated T acc existing.record = true)

/-- The client passes the answer over: it is not about what was asked, or it is the best one
so far, or it does not replace it. -/
def PassedOver (query : ResolveQuery) (best : Option (Json F)) (rec : Json F) : Prop :=
  answersQuery P T query rec = true →
    ∃ held, best = some held ∧ (replaces T rec held = some false ∨
      rec = held ∧ (replaces T rec held).isSome = true)

/-- The client passes over every answer of the stranger, where it comes to it. -/
def StrangersPassedOver (d : Directory F) (query : ResolveQuery) :
    Option (Json F) → List (Answerer F) → Prop
  | _, [] => True
  | best, answerer :: rest =>
    (∀ rec, answerer = .stranger rec → PassedOver P T query best rec) ∧
    ∀ best', weigh P T query best (d.answerFrom T query answerer) = some best' →
      StrangersPassedOver d query best' rest

/-- Nothing that the stranger sends is taken. -/
def NothingTaken (t : Twin F) : Input F → Prop
  | .gossip relay acc network true => LeftOut P T t.actual relay acc network
  | .resolve identifier answerers => t.actual.client.asks identifier = true →
      StrangersPassedOver P T t.actual (DirectoryClient.queryFor T identifier) none answerers
  | _ => True

/-! ## The two runs -/

variable {P T}

theorem archiveAccountRecord_leftOut {d : Directory F} {relay : String} {acc : Json F}
    {network : Network} (h : LeftOut P T d relay acc network) :
    archiveAccountRecord P T (d.relays relay).accountStore acc network =
      (d.relays relay).accountStore := by
  unfold archiveAccountRecord
  split
  · rfl
  · split
    · rfl
    · next hverify =>
        split
        · rfl
        · next pub hpub =>
            obtain ⟨existing, hget, hkept⟩ := h (Bool.not_eq_false _ ▸ hverify) pub hpub
            dsimp only
            split
            · rfl
            · next hnew =>
                rcases hkept with rfl | hold
                · exact JsMap.set_eq_self hget
                · rw [hget, Option.any_some, hold] at hnew
                  exact absurd rfl hnew

omit [JsNumber F] in
theorem setRelay_self (d : Directory F) (name : String) :
    d.setRelay name (d.relays name) = d := by
  have hrelays : (fun other => if other = name then d.relays name else d.relays other) =
      d.relays := by
    funext other
    split
    · next heq => rw [heq]
    · rfl
  unfold setRelay
  rw [hrelays]

theorem weigh_passedOver {query : ResolveQuery} {best : Option (Json F)} {rec : Json F}
    (h : PassedOver P T query best rec) : weigh P T query best (some rec) = some best := by
  unfold weigh
  dsimp only
  split
  · next hanswers =>
      obtain ⟨held, rfl, hkept | ⟨rfl, hsome⟩⟩ := h hanswers
      · dsimp only
        rw [hkept]
        rfl
      · obtain ⟨newer, hnewer⟩ := Option.isSome_iff_exists.mp hsome
        dsimp only
        rw [hnewer, Option.map_some, ite_self]
  · rfl

theorem foldlM_weigh_honest {d : Directory F} {query : ResolveQuery} {best : Option (Json F)}
    {answerers : List (Answerer F)} (h : StrangersPassedOver P T d query best answerers) :
    (answerers.map (d.answerFrom T query)).foldlM (weigh P T query) best =
      ((answerers.filter honest).map (d.answerFrom T query)).foldlM
        (weigh P T query) best := by
  induction answerers generalizing best with
  | nil => rfl
  | cons answerer rest ih =>
    have hrest : ∀ best', weigh P T query best (d.answerFrom T query answerer) = some best' →
        (rest.map (d.answerFrom T query)).foldlM (weigh P T query) best' =
          ((rest.filter honest).map (d.answerFrom T query)).foldlM
            (weigh P T query) best' := fun best' hweigh => ih (h.2 best' hweigh)
    rw [List.map_cons, List.foldlM_cons]
    cases hhonest : honest answerer with
    | true =>
      rw [List.filter_cons_of_pos hhonest, List.map_cons, List.foldlM_cons]
      cases hweigh : weigh P T query best (d.answerFrom T query answerer) with
      | none => rfl
      | some best' => exact hrest best' hweigh
    | false =>
      rw [List.filter_cons_of_neg (by rw [hhonest]; exact Bool.false_ne_true)]
      obtain ⟨rec, rfl⟩ : ∃ rec, answerer = .stranger rec := by
        cases answerer with
        | stranger rec => exact ⟨rec, rfl⟩
        | relay name => cases hhonest
        | unreachable => cases hhonest
      have hkept : weigh P T query best (d.answerFrom T query (.stranger rec)) = some best :=
        weigh_passedOver (h.1 rec rfl)
      rw [hkept]
      exact hrest best hkept

theorem resolveAccount_honest {d : Directory F} {identifier : String}
    {answerers : List (Answerer F)}
    (h : d.client.asks identifier = true →
      StrangersPassedOver P T d (DirectoryClient.queryFor T identifier) none answerers) :
    d.step P T (.resolve identifier answerers) =
      d.step P T (.resolve identifier (answerers.filter honest)) := by
  have hclient : d.client.resolveAccount P T identifier
      (answerers.map (d.answerFrom T (DirectoryClient.queryFor T identifier))) =
      d.client.resolveAccount P T identifier ((answerers.filter honest).map
        (d.answerFrom T (DirectoryClient.queryFor T identifier))) := by
    unfold DirectoryClient.resolveAccount
    split
    · next hasks =>
        unfold resolveAccountFromRelays
        rw [foldlM_weigh_honest (h hasks)]
    · rfl
  unfold step
  dsimp only
  rw [hclient]

theorem Twin.step_of_same {d : Directory F} {input : Input F}
    (h : NothingTaken P T ⟨d, d⟩ input) :
    (Twin.step P T ⟨d, d⟩ input).actual = (Twin.step P T ⟨d, d⟩ input).quiet := by
  cases input with
  | gossip relay acc network byStranger =>
    cases byStranger with
    | true =>
      show d.setRelay relay
        { d.relays relay with
          accountStore :=
            archiveAccountRecord P T (d.relays relay).accountStore acc network } = d
      rw [archiveAccountRecord_leftOut h]
      exact setRelay_self d relay
    | false => rfl
  | attest relay username claim => rfl
  | resolve identifier answerers => exact resolveAccount_honest h

/-- Where nothing is taken that the stranger sends, what is archived, registered and cached for
an account is what it would be without the stranger, throughout. -/
theorem only_signed_counts (P : Primitives F) (T : JsText F) (d : Directory F)
    (accountId : String) (inputs : List (Input F))
    (htaken : Run.StepsMeet (Twin.step P T) (NothingTaken P T) ⟨d, d⟩ inputs) :
    Run.Always (Twin.step P T) (Twin.SameFor accountId) ⟨d, d⟩ inputs := by
  refine Run.always_of_invariant (I := fun t => t.actual = t.quiet) ?_ ?_ rfl htaken
  · rintro ⟨actual, quiet⟩ input hsame h
    dsimp only at hsame
    subst hsame
    exact Twin.step_of_same h
  · rintro ⟨actual, quiet⟩ hsame
    dsimp only at hsame
    subst hsame
    exact ⟨fun _ _ => rfl, rfl, rfl⟩

section Samples

open NeuronWeb.Sample (jsText signedRecord)

/-- Nothing is archived, attested or known yet. -/
def blank : Directory Rat where
  relays _ := ⟨.empty, .empty⟩
  client := ⟨.testnet, .empty, .empty, .empty, .empty⟩

/-- Whether a record is older than the archived one of its account. -/
def isOutdated (d : Directory Rat) (relay : String) (acc : Json Rat) (network : Network) : Bool :=
  match Json.written (acc.property "pub") with
  | none => true
  | some pub => ((d.relays relay).accountStore.get? (accountKey network pub)).any fun existing =>
    outdated jsText acc existing.record

theorem leftOut_of_isOutdated {d : Directory Rat} {relay : String} {acc : Json Rat}
    {network : Network} (h : isOutdated d relay acc network = true) :
    LeftOut Sample.primitives jsText d relay acc network := by
  intro _ pub hpub
  simp only [isOutdated, hpub] at h
  obtain ⟨existing, hget, hold⟩ := (Option.any_eq_true _ _).mp h
  exact ⟨existing, hget, .inr hold⟩

/-- Whether the best answer so far stands against another. -/
def stands (best : Option (Json Rat)) (rec : Json Rat) : Bool :=
  best.any fun held => decide (replaces jsText rec held = some false)

theorem passedOver_of_stands {query : ResolveQuery} {best : Option (Json Rat)} {rec : Json Rat}
    (h : stands best rec = true) : PassedOver Sample.primitives jsText query best rec := by
  intro _
  obtain ⟨held, hbest, hkept⟩ := (Option.any_eq_true _ _).mp h
  exact ⟨held, hbest, .inl (decide_eq_true_eq.mp hkept)⟩

/-- The owner publishes twice; a stranger sends the first record again, to the relay and to a
client that resolves the account. -/
def olderCopies : List (Input Rat) :=
  [.gossip "r" (signedRecord "02a" "ann" 5 1 "a") .testnet false,
    .gossip "r" (signedRecord "02a" "ann" 5 2 "b") .testnet false,
    .gossip "r" (signedRecord "02a" "ann" 5 1 "a") .testnet true,
    .resolve "ann" [.relay "r", .stranger (signedRecord "02a" "ann" 5 1 "a")]]

theorem only_signed_counts_olderCopies :
    Run.Always (Twin.step Sample.primitives jsText) (Twin.SameFor "02a") ⟨blank, blank⟩
      olderCopies := by
  apply only_signed_counts
  refine ⟨trivial, trivial, leftOut_of_isOutdated (by decide +kernel), ?_, trivial⟩
  intro _
  constructor
  · intro rec h
    cases h
  · intro best hweigh
    refine ⟨fun rec h => ?_, fun _ _ => trivial⟩
    -- the relay has answered with the second record
    obtain rfl : _ = rec := Answerer.stranger.inj h
    have hstands := congrArg (Option.any fun best =>
      stands best (signedRecord "02a" "ann" 5 1 "a")) hweigh
    exact passedOver_of_stands (hstands.symm.trans (by decide +kernel))

/-- A copy of the owner's record with a high `_version` stays, and the owner's next record is
refused. -/
theorem replayed_version_pins :
    ¬ Twin.SameFor "02a" (Run.final (Twin.step Sample.primitives jsText) ⟨blank, blank⟩
      [.gossip "r" (signedRecord "02a" "ann" 5 1 "a") .testnet false,
        .gossip "r" (signedRecord "02a" "ann" 5 9 "a") .testnet true,
        .gossip "r" (signedRecord "02a" "ann" 5 2 "b") .testnet false]) := by
  intro h
  have hsame := congrArg (fun row : Option (AccountRow Rat) => row.bind fun row =>
    Json.asString (row.record.property "linkedAnchor")) (h.1 "r" .testnet)
  exact absurd hsame (by decide +kernel)

end Samples

end Directory

end NeuronWeb
