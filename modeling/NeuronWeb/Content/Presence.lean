/-
  Content/Presence: where a provider says it can be reached.

  A beacon is signed over its fields joined by `|`. The address and the country are free texts,
  and so is the account id: one that contains the separator moves the boundary between two
  fields, and what was signed for one beacon verifies for another (`presence_bound_iff`).
-/
import NeuronWeb.Foundation.JsMap
import NeuronWeb.Foundation.Number
import NeuronWeb.Foundation.Run

set_option autoImplicit false

namespace NeuronWeb

variable {F : Type} [JsNumber F]

/-- How a provider says where it is. -/
structure PresenceBeacon (F : Type) where
  /-- The provider's account id, and the signer. -/
  pub : String
  smokeAddr : Option String
  countryCode : Option String
  capacityGB : Option F
  storedBytes : Option F
  ts : F

/-- The exact text a provider signs. -/
def presencePayload (b : PresenceBeacon F) : String :=
  "|".intercalate
    ["presence-v1",
      b.pub,
      b.smokeAddr.getD "",
      b.countryCode.getD "",
      JsNumber.toText (b.capacityGB.getD (JsNumber.ofInt 0)),
      JsNumber.toText (b.storedBytes.getD (JsNumber.ofInt 0)),
      JsNumber.toText b.ts]

structure SignedPresence (F : Type) where
  beacon : PresenceBeacon F
  signature : String

/-- The freshest beacon per provider. -/
structure PresenceStore (F : Type) where
  latest : JsMap String (PresenceBeacon F)

/-- `verify(payload, signature, pub)`. -/
abbrev PresenceVerifier : Type := String → String → String → Bool

namespace PresenceStore

def new : PresenceStore F := ⟨JsMap.empty⟩

/-- `record`: why a beacon is refused, or the store that holds it. -/
def record (store : PresenceStore F) (env : SignedPresence F) (verify : PresenceVerifier)
    (now maxSkewMs : F) : Except String (PresenceStore F) :=
  let b := env.beacon
  if b.pub = "" then .error "presence: missing pub"
  else if !JsNumber.isFinite b.ts then .error "presence: missing timestamp"
  else if JsNumber.lt (JsNumber.add now maxSkewMs) b.ts then
    .error ("presence: timestamp " ++ JsNumber.toText b.ts ++ " is too far ahead")
  else if !verify (presencePayload b) env.signature b.pub then
    .error "presence: signature does not verify"
  else
    match (store.latest.get? b.pub).filter fun prev => JsNumber.le b.ts prev.ts with
    | some prev =>
      .error ("presence: stale (" ++ JsNumber.toText b.ts ++ " <= " ++
        JsNumber.toText prev.ts ++ ")")
    | none => .ok { store with latest := store.latest.set b.pub b }

/-- The freshest beacon for a provider, if it is still fresh enough to dial. -/
def get (store : PresenceStore F) (pub : String) (now maxAgeMs : F) :
    Option (PresenceBeacon F) :=
  (store.latest.get? pub).filter fun b => JsNumber.le (JsNumber.sub now b.ts) maxAgeMs

/-- Drop beacons too old to dial. -/
def sweep (store : PresenceStore F) (now maxAgeMs : F) : PresenceStore F :=
  { store with
    latest := store.latest.filter fun _ b => !JsNumber.lt maxAgeMs (JsNumber.sub now b.ts) }

end PresenceStore

/-! ## What the payload says -/

/-- Equal as numbers, or both not-a-number. -/
def SameValue (x y : F) : Prop :=
  JsNumber.same x y = true ∨ (JsNumber.same x x = false ∧ JsNumber.same y y = false)

namespace PresenceBeacon

/-- The two beacons say the same, what is absent counting as its default. -/
structure Agrees (b b' : PresenceBeacon F) : Prop where
  pub : b.pub = b'.pub
  smokeAddr : b.smokeAddr.getD "" = b'.smokeAddr.getD ""
  countryCode : b.countryCode.getD "" = b'.countryCode.getD ""
  capacityGB : SameValue (b.capacityGB.getD (JsNumber.ofInt 0))
    (b'.capacityGB.getD (JsNumber.ofInt 0))
  storedBytes : SameValue (b.storedBytes.getD (JsNumber.ofInt 0))
    (b'.storedBytes.getD (JsNumber.ofInt 0))
  ts : SameValue b.ts b'.ts

/-- Neither of the two free texts of a beacon contains the separator. -/
def PlainRoute (b : PresenceBeacon F) : Prop :=
  '|' ∉ (b.smokeAddr.getD "").toList ∧ '|' ∉ (b.countryCode.getD "").toList

instance (b : PresenceBeacon F) : Decidable b.PlainRoute :=
  inferInstanceAs (Decidable (_ ∧ _))

/-- The fields after the account id. -/
def route (b : PresenceBeacon F) : List String :=
  [b.smokeAddr.getD "",
    b.countryCode.getD "",
    JsNumber.toText (b.capacityGB.getD (JsNumber.ofInt 0)),
    JsNumber.toText (b.storedBytes.getD (JsNumber.ofInt 0)),
    JsNumber.toText b.ts]

end PresenceBeacon

open PresenceBeacon

theorem toList_bar : "|".toList = ['|'] := rfl

theorem presencePayload_eq (b : PresenceBeacon F) :
    presencePayload b = "|".intercalate ("presence-v1" :: b.pub :: b.route) := rfl

theorem route_free [TextJsNumber F] {b : PresenceBeacon F} (plain : b.PlainRoute) :
    ∀ field ∈ b.route, '|' ∉ field.toList := by
  intro field hfield
  simp only [PresenceBeacon.route, List.mem_cons, List.not_mem_nil, or_false] at hfield
  rcases hfield with rfl | rfl | rfl | rfl | rfl
  · exact plain.1
  · exact plain.2
  all_goals exact TextJsNumber.bar_not_mem _

variable {b b' : PresenceBeacon F}

theorem agrees_of_route [TextJsNumber F] (hpub : b.pub = b'.pub)
    (h : b.route = b'.route) : b.Agrees b' := by
  simp only [PresenceBeacon.route, List.cons.injEq, and_true] at h
  obtain ⟨hsmoke, hcountry, hcapacity, hstored, hts⟩ := h
  exact
    { pub := hpub
      smokeAddr := hsmoke
      countryCode := hcountry
      capacityGB := TextJsNumber.same_of_toText _ _ hcapacity
      storedBytes := TextJsNumber.same_of_toText _ _ hstored
      ts := TextJsNumber.same_of_toText _ _ hts }

theorem agrees_of_payload [TextJsNumber F] (hpub : '|' ∉ b.pub.toList) (plain : b.PlainRoute)
    (h : presencePayload b' = presencePayload b) : b'.Agrees b := by
  have hfree : ∀ field ∈ "presence-v1" :: b.pub :: b.route, '|' ∉ field.toList := by
    intro field hfield
    rcases List.mem_cons.mp hfield with rfl | hfield
    · decide
    rcases List.mem_cons.mp hfield with rfl | hfield
    · exact hpub
    · exact route_free plain field hfield
  rw [presencePayload_eq, presencePayload_eq] at h
  have hfields : "presence-v1" :: b.pub :: b.route = "presence-v1" :: b'.pub :: b'.route :=
    Text.join_inj toList_bar rfl hfree h.symm
  obtain ⟨hpub', hroute⟩ := List.cons.inj (List.cons.inj hfields).2
  exact agrees_of_route hpub'.symm hroute.symm

theorem agrees_of_payload_of_pub [TextJsNumber F] (plain : b.PlainRoute) (hpub : b'.pub = b.pub)
    (h : presencePayload b' = presencePayload b) : b'.Agrees b := by
  have hroute : "|".intercalate b'.route = "|".intercalate b.route := by
    have hchars := congrArg String.toList h
    rw [presencePayload_eq, presencePayload_eq, hpub, String.toList_intercalate,
      String.toList_intercalate] at hchars
    apply String.toList_injective
    rw [String.toList_intercalate, String.toList_intercalate]
    simpa [PresenceBeacon.route, List.intercalate_cons_cons] using hchars
  have hfields : b.route = b'.route :=
    Text.join_inj toList_bar rfl (route_free plain) hroute.symm
  exact agrees_of_route hpub hfields.symm

/-! ## Moving a boundary -/

theorem exists_bar {s : String} (h : '|' ∈ s.toList) : ∃ left right, s = left ++ "|" ++ right := by
  obtain ⟨left, right, hsplit⟩ := List.append_of_mem h
  refine ⟨String.ofList left, String.ofList right, String.toList_injective ?_⟩
  simp [hsplit]

theorem ne_append_bar (left right : String) : left ≠ left ++ "|" ++ right := by
  intro h
  have hlength := congrArg String.length h
  simp only [String.length_append] at hlength
  have hbar : "|".length = 1 := rfl
  omega

/-- The two free texts between which a boundary can move, in a beacon that has `pub` and the
numbers of `b`. -/
def PresenceBeacon.withRoute (b : PresenceBeacon F) (pub smokeAddr countryCode : String) :
    PresenceBeacon F :=
  { b with pub, smokeAddr := some smokeAddr, countryCode := some countryCode }

theorem presencePayload_withRoute (b : PresenceBeacon F) (pub smokeAddr countryCode : String) :
    presencePayload (b.withRoute pub smokeAddr countryCode) =
      "presence-v1" ++ "|" ++ pub ++ "|" ++ smokeAddr ++ "|" ++ countryCode ++ "|" ++
        JsNumber.toText (b.capacityGB.getD (JsNumber.ofInt 0)) ++ "|" ++
        JsNumber.toText (b.storedBytes.getD (JsNumber.ofInt 0)) ++ "|" ++
        JsNumber.toText b.ts := rfl

theorem presencePayload_defaults (b : PresenceBeacon F) :
    presencePayload (b.withRoute b.pub (b.smokeAddr.getD "") (b.countryCode.getD "")) =
      presencePayload b := rfl

/-- The boundary between address and country moves over a separator inside either of them. -/
theorem exists_moved_route {b : PresenceBeacon F} (h : ¬b.PlainRoute) :
    ∃ b' : PresenceBeacon F, b'.pub = b.pub ∧ b'.ts = b.ts ∧
      presencePayload b' = presencePayload b ∧ ¬b'.Agrees b := by
  rw [PresenceBeacon.PlainRoute, not_and_or, not_not, not_not] at h
  rw [← presencePayload_defaults b]
  rcases h with h | h
  case inl =>
    obtain ⟨left, right, hsmoke⟩ := exists_bar h
    refine ⟨b.withRoute b.pub left (right ++ "|" ++ b.countryCode.getD ""), rfl, rfl, ?_, ?_⟩
    · rw [presencePayload_withRoute, presencePayload_withRoute, hsmoke]
      simp only [String.append_assoc]
    · intro hagrees
      have hleft : left = b.smokeAddr.getD "" := hagrees.smokeAddr
      exact ne_append_bar left right (hleft.trans hsmoke)
  case inr =>
    obtain ⟨left, right, hcountry⟩ := exists_bar h
    refine ⟨b.withRoute b.pub (b.smokeAddr.getD "" ++ "|" ++ left) right, rfl, rfl, ?_, ?_⟩
    · rw [presencePayload_withRoute, presencePayload_withRoute, hcountry]
      simp only [String.append_assoc]
    · intro hagrees
      have hsmoke : b.smokeAddr.getD "" ++ "|" ++ left = b.smokeAddr.getD "" := hagrees.smokeAddr
      exact ne_append_bar _ left hsmoke.symm

theorem exists_moved_pub {b : PresenceBeacon F} (h : '|' ∈ b.pub.toList) :
    ∃ b' : PresenceBeacon F, presencePayload b' = presencePayload b ∧ ¬b'.Agrees b := by
  obtain ⟨left, right, hpub⟩ := exists_bar h
  rw [← presencePayload_defaults b]
  refine ⟨b.withRoute left (right ++ "|" ++ b.smokeAddr.getD "") (b.countryCode.getD ""), ?_, ?_⟩
  · rw [presencePayload_withRoute, presencePayload_withRoute, hpub]
    simp only [String.append_assoc]
  · intro hagrees
    have hleft : left = b.pub := hagrees.pub
    exact ne_append_bar left right (hleft.trans hpub)

/-! ## What a store accepts -/

theorem verify_of_record {store store' : PresenceStore F} {env : SignedPresence F}
    {verify : PresenceVerifier} {now maxSkewMs : F}
    (h : store.record env verify now maxSkewMs = .ok store') :
    verify (presencePayload env.beacon) env.signature env.beacon.pub = true ∧
      store'.latest = store.latest.set env.beacon.pub env.beacon := by
  simp only [PresenceStore.record] at h
  split at h
  · cases h
  split at h
  · cases h
  split at h
  · cases h
  split at h
  · cases h
  case isFalse hverify =>
    split at h
    · cases h
    · cases h
      exact ⟨by simpa using hverify, rfl⟩

theorem record_isOk_congr {b b' : PresenceBeacon F} (hpub : b'.pub = b.pub) (hts : b'.ts = b.ts)
    (hpayload : presencePayload b' = presencePayload b) (store : PresenceStore F)
    (signature : String) (verify : PresenceVerifier) (now maxSkewMs : F) :
    (store.record ⟨b', signature⟩ verify now maxSkewMs).isOk =
      (store.record ⟨b, signature⟩ verify now maxSkewMs).isOk := by
  simp only [PresenceStore.record, hpub, hts, hpayload]
  split
  · rfl
  split
  · rfl
  split
  · rfl
  split
  · rfl
  split <;> rfl

/-- A beacon and its signature on the way to a store. -/
structure PresenceDelivery (F : Type) where
  store : PresenceStore F
  signature : String
  verify : PresenceVerifier
  now : F
  maxSkewMs : F

namespace PresenceDelivery

variable (d : PresenceDelivery F) (b : PresenceBeacon F)

/-- The store takes the beacon. -/
def Accepts : Prop := (d.store.record ⟨b, d.signature⟩ d.verify d.now d.maxSkewMs).isOk = true

/-- The signature is the provider's over this beacon and, for its key, over nothing else. -/
def SignedOnlyFor : Prop :=
  ∀ payload, d.verify payload d.signature b.pub = true → payload = presencePayload b

variable {d} {b}

theorem payload_of_accepts {b' : PresenceBeacon F} (signed : d.SignedOnlyFor b)
    (hpub : b'.pub = b.pub) (h : d.Accepts b') : presencePayload b' = presencePayload b := by
  unfold PresenceDelivery.Accepts at h
  cases hrecord : d.store.record ⟨b', d.signature⟩ d.verify d.now d.maxSkewMs with
  | error e =>
    rw [hrecord] at h
    cases h
  | ok store' =>
    have hverify := (verify_of_record hrecord).1
    rw [hpub] at hverify
    exact signed _ hverify

end PresenceDelivery

/-- The signed text determines what a beacon says exactly when no free text in it contains the
separator.  A beacon that was signed and is accepted can be exchanged, under the same signature,
for one that says something else exactly when its address or its country does. -/
theorem presence_bound_iff [TextJsNumber F] (b : PresenceBeacon F) :
    ((∀ b' : PresenceBeacon F, presencePayload b' = presencePayload b → b'.Agrees b) ↔
      '|' ∉ b.pub.toList ∧ b.PlainRoute) ∧
    ∀ d : PresenceDelivery F, d.SignedOnlyFor b → d.Accepts b →
      ((∀ b' : PresenceBeacon F, b'.pub = b.pub → d.Accepts b' → b'.Agrees b) ↔
        b.PlainRoute) := by
  refine ⟨⟨fun hbound => ⟨?_, ?_⟩, ?_⟩, ?_⟩
  · intro hbar
    obtain ⟨b', hpayload, hdiffers⟩ := exists_moved_pub hbar
    exact hdiffers (hbound b' hpayload)
  · by_contra hbar
    obtain ⟨b', _, _, hpayload, hdiffers⟩ := exists_moved_route hbar
    exact hdiffers (hbound b' hpayload)
  · intro hplain b' hpayload
    exact agrees_of_payload hplain.1 hplain.2 hpayload
  · intro d signed accepted
    constructor
    · intro hbound
      by_contra hbar
      obtain ⟨b', hpub, hts, hpayload, hdiffers⟩ := exists_moved_route hbar
      have haccepts : d.Accepts b' :=
        (record_isOk_congr hpub hts hpayload d.store d.signature d.verify d.now
          d.maxSkewMs).trans accepted
      exact hdiffers (hbound b' hpub haccepts)
    · intro plain b' hpub haccepts
      exact agrees_of_payload_of_pub plain hpub
        (PresenceDelivery.payload_of_accepts signed hpub haccepts)

/-- A beacon as a provider announces it. -/
def announcedBeacon : PresenceBeacon Rat where
  pub := "aa"
  smokeAddr := some "p1.example"
  countryCode := some "DE"
  capacityGB := some 10
  storedBytes := none
  ts := 7

/-- The beacon under a signature that is the provider's over it alone. -/
def announcedDelivery : PresenceDelivery Rat where
  store := PresenceStore.new
  signature := "sig"
  verify payload _ pub := decide (payload = presencePayload announcedBeacon ∧ pub = "aa")
  now := 8
  maxSkewMs := 1

/-- What the announced beacon says is bound, and no other can take its place. -/
theorem presence_bound_iff_announced :
    (∀ b' : PresenceBeacon Rat, presencePayload b' = presencePayload announcedBeacon →
      b'.Agrees announcedBeacon) ∧
    ∀ b' : PresenceBeacon Rat, b'.pub = announcedBeacon.pub → announcedDelivery.Accepts b' →
      b'.Agrees announcedBeacon := by
  have hplain : announcedBeacon.PlainRoute := by decide
  have signed : announcedDelivery.SignedOnlyFor announcedBeacon := by
    intro payload hverify
    exact (of_decide_eq_true hverify).1
  have accepted : announcedDelivery.Accepts announcedBeacon := by
    unfold PresenceDelivery.Accepts
    decide +kernel
  exact ⟨(presence_bound_iff announcedBeacon).1.mpr ⟨by decide, hplain⟩,
    ((presence_bound_iff announcedBeacon).2 announcedDelivery signed accepted).mpr hplain⟩

/-- An address `x|y` in `DE` is signed as the address `x` in `y|DE` is. -/
theorem presence_boundary_moves :
    ¬∀ b b' : PresenceBeacon Rat, presencePayload b' = presencePayload b → b'.Agrees b := by
  intro hbound
  have hagrees := hbound (announcedBeacon.withRoute "aa" "x|y" "DE")
    (announcedBeacon.withRoute "aa" "x" "y|DE") (by decide +kernel)
  exact absurd hagrees.smokeAddr (by decide)

/-! ## What a store holds -/

namespace PresenceStore

variable {verify : PresenceVerifier} {Q : PresenceBeacon F → Prop} {store : PresenceStore F}

end PresenceStore

end NeuronWeb
