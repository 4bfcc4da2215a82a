/-
  Relay/Nullifiers: the nullifiers that one relay gives out
  (`relay/server.ts`, `engine/core/identity.ts`).

  A nullifier is the nid of the face with the number of slots that were taken when the account
  took its own. A slot that is given back lowers the counter again, whichever of the slots it
  was: when the first of two accounts is given up and the second opens, a third account takes
  the number of the second, and the identity registry takes the two for one human
  (`nullifier_reissued`).
-/
import Mathlib.Order.Interval.Finset.Nat
import NeuronWeb.Relay.FaceSlots

set_option autoImplicit false

namespace NeuronWeb.Relay

variable {F : Type}

/-! ## Slots with their numbers -/

/-- A slot of a face, with the number that its nullifier has. -/
structure NumberedSlot extends Slot where
  number : Nat
  deriving DecidableEq

namespace NumberedSlot

/-- `${nid}#${faceCount}`. -/
def nullifier (u : NumberedSlot) : String := u.nid ++ "#" ++ toString u.number

/-- What a nullifier tells of its slot. -/
def code (u : NumberedSlot) : String × Nat := (u.nid, u.number)

theorem code_eq_of_nullifier_eq {u v : NumberedSlot} (h : u.nullifier = v.nullifier) :
    u.code = v.code := by
  have hchars := congrArg String.toList h
  simp only [nullifier, String.toList_append, List.append_assoc] at hchars
  obtain ⟨hnid, hnumber⟩ := Text.last_field_inj
    (Text.not_mem_repr (c := '#') (by decide) u.number)
    (Text.not_mem_repr (c := '#') (by decide) v.number) hchars
  exact Prod.ext (String.toList_injective hnid)
    (Text.repr_injective (String.toList_injective hnumber))

end NumberedSlot

/-- The slot that a handler has taken and has not attested yet. -/
def savingNumbered? : Option (VerifyFrame F) → Option NumberedSlot
  | some (.saving req accountId nid faceCount) => some ⟨⟨accountId, nid, req.network⟩, faceCount⟩
  | _ => none

/-- The slot that an event attests. -/
def Event.numbered? (e : Event F) : Option NumberedSlot :=
  match e.answer with
  | some (.attested _ _ _) => savingNumbered? e.turn
  | _ => none

/-- The timer gives the slot back: it is the last that was attested for its account, and
what is pending for the account is stale. -/
def givenBack (s : Relay F) (held : List NumberedSlot) (now : Int) (u : NumberedSlot) : Bool :=
  (s.pendingFaceUses.get? u.accountId).any (stale now) &&
    decide (held.find? (fun v => v.accountId = u.accountId) = some u)

/-- The attested slots that are held after an event, the last one first. -/
def heldAfter (held : List NumberedSlot) (e : Event F) : List NumberedSlot :=
  match e.numbered? with
  | some u => u :: held
  | none =>
    match e.input with
    | .releaseStale now => held.filter fun u => !givenBack e.before held now u
    | _ => held

def heldSlots (events : List (Event F)) : List NumberedSlot := events.foldl heldAfter []

/-- The slots in use: those that are held, and those that a handler is about to attest. -/
def inUse (s : Relay F) (held : List NumberedSlot) : List NumberedSlot :=
  held ++ s.handlers.filterMap savingNumbered?

/-! ## Nullifiers of opened accounts -/

section Claim

variable (P : Primitives F)

/-- The relay gave the account this nullifier. -/
def GivenNullifier (w : History F) (accountId : Hex) (nullifier : String) : Prop :=
  ∃ e ∈ w.events, ∃ req nid faceCount attestation pub,
    e.turn = some (.saving req accountId nid faceCount) ∧
    e.answer = some (.attested nullifier attestation pub)

/-- An open block of the account that commits to this nullifier is archived. -/
def OpenedOn (w : History F) (accountId : Hex) (nullifier : String) : Prop :=
  ∃ e ∈ w.events, ∃ block network, e.input = .archive block network ∧
    Opens P e.before block ∧ block.accountId = accountId ∧
    block.identityCommitment = some (deriveCommitment P nullifier accountId)

/-- The account has been attested with the nullifier and opened on it. -/
def Carries (w : History F) (accountId : Hex) (nullifier : String) : Prop :=
  GivenNullifier w accountId nullifier ∧ OpenedOn P w accountId nullifier

/-- Opened accounts have different nullifiers, and an identity registry that has seen other
accounts takes one more. -/
structure NullifiersDistinct (w : History F) : Prop where
  distinct : ∀ accountId other nullifier otherNullifier, accountId ≠ other →
    Carries P w accountId nullifier → Carries P w other otherNullifier →
      nullifier ≠ otherNullifier
  registers : ∀ (used : IdentityRegistry) accountId nullifier, Carries P w accountId nullifier →
    (∀ n, used.has n = true → ∃ other, other ≠ accountId ∧ Carries P w other n) →
      used.register P nullifier (deriveCommitment P nullifier accountId) accountId =
        .ok (used.set nullifier (deriveCommitment P nullifier accountId))

/-- The request comes without an anchor. -/
def NoAnchor (_ : History F) : Input F → Prop
  | .verify req _ => req.nullifier.filter isAnchor = none
  | _ => True

/-- `randomUUID()` does not repeat itself. -/
def DrawsFreshNid (w : History F) : Input F → Prop
  | .resume i uuid _ => ∀ req accountId descriptor,
      w.relay.handlers[i]? = some (some (.hashing req accountId descriptor)) →
      uuid ≠ "" ∧ ∀ entry ∈ w.relay.faceDescriptorDB, entry.nid ≠ uuid
  | _ => True

/-- The timer gives back the slots of a face that were numbered last, and none that an
account has opened on; an account opens on a slot that it still holds. -/
def FreesLast (w : History F) : Input F → Prop
  | .releaseStale now =>
    ∀ v ∈ heldSlots w.events, givenBack w.relay (heldSlots w.events) now v = true →
      ¬ OpenedOn P w v.accountId v.nullifier ∧
      ∀ u ∈ inUse w.relay (heldSlots w.events),
        givenBack w.relay (heldSlots w.events) now u = false → u.nid = v.nid →
          u.number < v.number
  | .archive block _ => Opens P w.relay block → ∀ nullifier,
      GivenNullifier w block.accountId nullifier →
      block.identityCommitment = some (deriveCommitment P nullifier block.accountId) →
      ∃ u ∈ heldSlots w.events, u.accountId = block.accountId ∧ u.nullifier = nullifier
  | _ => True

end Claim

/-! ## Lists with one element replaced -/

section Lists

variable {α β : Type}

theorem exists_set_eq {l : List α} {i : Nat} {x : α} (h : l[i]? = some x) :
    ∃ front back, l = front ++ x :: back ∧ ∀ y, l.set i y = front ++ y :: back := by
  induction l generalizing i with
  | nil => cases h
  | cons a l ih =>
    cases i with
    | zero =>
      rw [List.getElem?_cons_zero] at h
      exact ⟨[], l, by rw [Option.some.inj h]; rfl, fun _ => rfl⟩
    | succ i =>
      rw [List.getElem?_cons_succ] at h
      obtain ⟨front, back, hl, hset⟩ := ih h
      exact ⟨a :: front, back, by rw [hl]; rfl, fun y => by rw [List.set_cons_succ, hset]; rfl⟩

theorem filterMap_set_perm {l : List α} {i : Nat} {x y : α} (h : l[i]? = some x)
    (f : α → Option β) :
    ((f x).toList ++ (l.set i y).filterMap f).Perm ((f y).toList ++ l.filterMap f) := by
  obtain ⟨front, back, hl, hset⟩ := exists_set_eq h
  have hcons : ∀ z, (z :: back).filterMap f = (f z).toList ++ back.filterMap f := by
    intro z
    rw [List.filterMap_cons]
    cases f z <;> rfl
  rw [hset, hl, List.filterMap_append, List.filterMap_append, hcons, hcons]
  refine (List.perm_append_comm_assoc _ _ _).trans ?_
  refine ((List.perm_append_comm_assoc _ _ _).append_left _).trans ?_
  exact List.perm_append_comm_assoc _ _ _

theorem find?_filter_of_find? {l : List α} {p q : α → Bool} {x : α} (h : l.find? p = some x)
    (hx : q x = true) : (l.filter q).find? p = some x := by
  induction l with
  | nil => cases h
  | cons a l ih =>
    rw [List.find?_cons] at h
    cases hp : p a with
    | true =>
      rw [hp] at h
      rw [← Option.some.inj h] at hx ⊢
      rw [List.filter_cons_of_pos hx, List.find?_cons, hp]
    | false =>
      rw [hp] at h
      rw [List.filter_cons]
      split
      · rw [List.find?_cons, hp]
        exact ih h
      · exact ih h

theorem lt_sub_length {freed : List Nat} {k count : Nat} (hnodup : freed.Nodup)
    (hlow : ∀ n ∈ freed, k < n) (hhigh : ∀ n ∈ freed, n < count) (hk : k < count) :
    k < count - freed.length := by
  have hsub : freed.toFinset ⊆ Finset.Ioo k count := by
    intro n hn
    have hmem := List.mem_toFinset.mp hn
    exact Finset.mem_Ioo.mpr ⟨hlow n hmem, hhigh n hmem⟩
  have hcard := Finset.card_le_card hsub
  rw [List.toFinset_card_of_nodup hnodup, Nat.card_Ioo] at hcard
  omega

end Lists

/-! ## The numbers in use -/

/-- The request that a handler serves. -/
def requestOf : VerifyFrame F → VerifyRequest F
  | .hashing req _ _ => req
  | .saving req _ _ _ => req

/-- The numbers in use are apart and below their counters, and what is pending for an account
is the slot that was attested for it last. -/
structure Numbering (s : Relay F) (held : List NumberedSlot) : Prop where
  nids : ((s.faceDescriptorDB.map faceKey).map Prod.fst).Nodup
  named : ∀ entry ∈ s.faceDescriptorDB, entry.nid ≠ ""
  plain : ∀ frame, some frame ∈ s.handlers → (requestOf frame).nullifier.filter isAnchor = none
  apart : ((inUse s held).map NumberedSlot.code).Nodup
  below : ∀ u ∈ inUse s held, ∃ entry ∈ s.faceDescriptorDB,
    u.toSlot.IsOf (faceKey entry) ∧ u.number < entry.count
  pending : ∀ accountId use, s.pendingFaceUses.get? accountId = some use →
    ∃ u, held.find? (fun v => v.accountId = accountId) = some u ∧ u.toSlot = slotOf (accountId, use)

namespace Numbering

variable {s s' : Relay F} {held : List NumberedSlot}

section

variable (h : Numbering s held)
include h

theorem congr (hfaces : s'.faceDescriptorDB = s.faceDescriptorDB)
    (huses : s'.pendingFaceUses = s.pendingFaceUses) (hhandlers : s'.handlers = s.handlers) :
    Numbering s' held where
  nids := by rw [hfaces]; exact h.nids
  named := by rw [hfaces]; exact h.named
  plain := by rw [hhandlers]; exact h.plain
  apart := by rw [inUse, hhandlers]; exact h.apart
  below := by rw [inUse, hhandlers, hfaces]; exact h.below
  pending := by rw [huses]; exact h.pending

theorem hash {req : VerifyRequest F} (accountId : Hex)
    (descriptor : List F) (hplain : req.nullifier.filter isAnchor = none) :
    Numbering { s with handlers := s.handlers ++ [some (.hashing req accountId descriptor)] }
      held := by
  have huse : inUse { s with handlers := s.handlers ++ [some (.hashing req accountId descriptor)] }
      held = inUse s held := by
    rw [inUse, List.filterMap_append, inUse]
    show held ++ (s.handlers.filterMap savingNumbered? ++ []) = _
    rw [List.append_nil]
  refine ⟨h.nids, h.named, ?_, by rw [huse]; exact h.apart, by rw [huse]; exact h.below,
    h.pending⟩
  intro frame hmem
  rcases List.mem_append.mp hmem with hmem | hmem
  · exact h.plain frame hmem
  · rw [Option.some.inj (List.mem_singleton.mp hmem)]
    exact hplain

theorem plain_set {i : Nat} {after : Option (VerifyFrame F)}
    (hafter : ∀ frame, after = some frame → (requestOf frame).nullifier.filter isAnchor = none) :
    ∀ frame, some frame ∈ s.handlers.set i after →
      (requestOf frame).nullifier.filter isAnchor = none := by
  intro frame hmem
  rcases List.mem_or_eq_of_mem_set hmem with hmem | hmem
  · exact h.plain frame hmem
  · exact hafter frame hmem.symm

theorem drop {i : Nat} {frame : VerifyFrame F} (hframe : s.handlers[i]? = some (some frame)) :
    Numbering { s with handlers := s.handlers.set i none } held := by
  have hperm := filterMap_set_perm (y := none) hframe savingNumbered?
  have hsub : (inUse { s with handlers := s.handlers.set i none } held).Subperm
      (inUse s held) := by
    refine (List.subperm_append_left held).mpr ?_
    exact (List.sublist_append_right _ _).subperm.trans hperm.subperm
  refine ⟨h.nids, h.named, h.plain_set (fun _ hnone => by cases hnone), ?_, ?_, h.pending⟩
  · obtain ⟨l, hsame, hless⟩ := hsub
    exact (hsame.map NumberedSlot.code).nodup_iff.mp
      (h.apart.sublist (hless.map NumberedSlot.code))
  · exact fun u hu => h.below u (hsub.subset hu)

theorem attest {i : Nat} {req : VerifyRequest F} {accountId : Hex}
    {nid : String} {faceCount : Nat}
    (hframe : s.handlers[i]? = some (some (.saving req accountId nid faceCount))) (now : Int) :
    Numbering { s.attested req accountId nid now with handlers := s.handlers.set i none }
      (⟨⟨accountId, nid, req.network⟩, faceCount⟩ :: held) := by
  have hperm := filterMap_set_perm (y := none) hframe savingNumbered?
  replace hperm : ((⟨⟨accountId, nid, req.network⟩, faceCount⟩ : NumberedSlot) ::
      (s.handlers.set i none).filterMap savingNumbered?).Perm
        (s.handlers.filterMap savingNumbered?) := hperm
  have huse : (inUse { s.attested req accountId nid now with handlers := s.handlers.set i none }
      (⟨⟨accountId, nid, req.network⟩, faceCount⟩ :: held)).Perm (inUse s held) :=
    List.perm_middle.symm.trans (hperm.append_left held)
  refine ⟨h.nids, h.named, h.plain_set (fun _ hnone => by cases hnone), ?_, ?_, ?_⟩
  · exact (huse.map NumberedSlot.code).nodup_iff.mpr h.apart
  · exact fun u hu => h.below u (huse.mem_iff.mp hu)
  · intro account use huse
    replace huse : (s.pendingFaceUses.set accountId ⟨nid, req.username, now, req.network⟩).get?
      account = some use := huse
    rw [JsMap.get?_set] at huse
    by_cases hsame : accountId = account
    · rw [if_pos hsame] at huse
      subst hsame
      rw [← Option.some.inj huse]
      exact ⟨_, List.find?_cons_of_pos (decide_eq_true rfl), rfl⟩
    · rw [if_neg hsame] at huse
      obtain ⟨u, hu, hslot⟩ := h.pending account use huse
      exact ⟨u, (List.find?_cons_of_neg (by simpa using hsame)).trans hu, hslot⟩

theorem archive (P : Primitives F) (block : Block F) (network : Network) :
    Numbering (archiveEngineBlock P s block network) held := by
  unfold archiveEngineBlock
  split
  · exact h
  · refine ⟨h.nids, h.named, h.plain, h.apart, h.below, ?_⟩
    intro accountId use huse
    dsimp only at huse
    split at huse
    · exact h.pending accountId use (JsMap.get?_of_get?_delete huse).2
    · exact h.pending accountId use huse

theorem entry_eq {entry entry' : FaceEntry F}
    (hentry : entry ∈ s.faceDescriptorDB) (hentry' : entry' ∈ s.faceDescriptorDB)
    (hnid : entry.nid = entry'.nid) : entry = entry' := by
  have hnids := h.nids
  rw [List.map_map] at hnids
  exact List.inj_on_of_nodup_map hnids hentry hentry' hnid

theorem number_lt {u : NumberedSlot} (hu : u ∈ inUse s held)
    {entry : FaceEntry F} (hentry : entry ∈ s.faceDescriptorDB) (hnid : u.nid = entry.nid) :
    u.number < entry.count := by
  obtain ⟨entry', hentry', hof, hlt⟩ := h.below u hu
  rw [h.entry_eq hentry hentry' (hnid.symm.trans hof.1)]
  exact hlt

theorem saving_kept {u : NumberedSlot}
    (hu : u ∈ s.handlers.filterMap savingNumbered?) (now : Int) :
    givenBack s held now u = false := by
  by_contra hgiven
  rw [Bool.not_eq_false, givenBack, Bool.and_eq_true, decide_eq_true_eq] at hgiven
  have hheld := List.mem_of_find?_eq_some hgiven.2
  have hapart := h.apart
  rw [inUse, List.map_append, List.nodup_append] at hapart
  exact hapart.2.2 _ (List.mem_map_of_mem hheld) _ (List.mem_map_of_mem hu) rfl

theorem length_stale_le (now : Int) (key : String × Network) :
    ((staleUses now s.pendingFaceUses.entries).map slotOf).countP (fun slot => slot.IsOf key) ≤
      (held.filter fun v => givenBack s held now v && decide (v.toSlot.IsOf key)).length := by
  rw [List.countP_eq_length_filter, ← List.length_map NumberedSlot.toSlot]
  refine (List.subperm_of_subset ((nodup_staleSlots s now).filter _) ?_).length_le
  intro slot hslot
  obtain ⟨hmem, hof⟩ := List.mem_filter.mp hslot
  obtain ⟨entry, hentry, rfl⟩ := List.mem_map.mp hmem
  obtain ⟨hget, hstale⟩ := mem_staleUses.mp hentry
  obtain ⟨v, hv, hvslot⟩ := h.pending entry.1 entry.2 hget
  have haccount : v.accountId = entry.1 := congrArg Slot.accountId hvslot
  refine List.mem_map.mpr ⟨v, List.mem_filter.mpr ⟨List.mem_of_find?_eq_some hv, ?_⟩, hvslot⟩
  rw [hvslot]
  simp only [givenBack, haccount, hget, hv, Option.any_some, hstale, Bool.true_and,
    decide_true, hof]

theorem nodup_numbers {p : NumberedSlot → Bool} (nid : String)
    (hp : ∀ v, p v = true → v.nid = nid) : ((held.filter p).map NumberedSlot.number).Nodup := by
  have hcodes : ((held.filter p).map NumberedSlot.code).Nodup :=
    h.apart.sublist ((List.filter_sublist.trans (List.sublist_append_left _ _)).map _)
  have hsame : (held.filter p).map NumberedSlot.code =
      ((held.filter p).map NumberedSlot.number).map fun n => (nid, n) := by
    rw [List.map_map]
    refine List.map_congr_left fun v hv => ?_
    rw [NumberedSlot.code, hp v (List.mem_filter.mp hv).2]
    rfl
  rw [hsame] at hcodes
  exact hcodes.of_map _

/-- The timer gives back the slots that were numbered last. -/
theorem release (now : Int)
    (hlast : ∀ v ∈ held, givenBack s held now v = true → ∀ u ∈ inUse s held,
      givenBack s held now u = false → u.nid = v.nid → u.number < v.number) :
    Numbering (s.releaseStaleFaceUses now) (held.filter fun u => !givenBack s held now u) := by
  have hfaces : (s.releaseStaleFaceUses now).faceDescriptorDB = s.faceDescriptorDB.map
      (lessSlots ((staleUses now s.pendingFaceUses.entries).map slotOf)) := by
    rw [releaseStaleFaceUses_eq]
    exact foldl_releaseSlot h.nids _
  have hhandlers : (s.releaseStaleFaceUses now).handlers = s.handlers := by
    rw [releaseStaleFaceUses_eq]
  have hsub : (inUse (s.releaseStaleFaceUses now)
      (held.filter fun u => !givenBack s held now u)).Sublist (inUse s held) := by
    rw [inUse, hhandlers]
    exact List.filter_sublist.append_right _
  refine ⟨?_, ?_, ?_, h.apart.sublist (hsub.map NumberedSlot.code), ?_, ?_⟩
  · rw [hfaces, map_faceKey_lessSlots]
    exact h.nids
  · intro entry' hentry'
    rw [hfaces] at hentry'
    obtain ⟨entry, hentry, rfl⟩ := List.mem_map.mp hentry'
    exact h.named entry hentry
  · rw [hhandlers]
    exact h.plain
  · intro u hu
    obtain ⟨entry, hentry, hof, hnumber⟩ := h.below u (hsub.subset hu)
    refine ⟨lessSlots ((staleUses now s.pendingFaceUses.entries).map slotOf) entry, ?_, hof, ?_⟩
    · rw [hfaces]
      exact List.mem_map_of_mem hentry
    · have hkept : givenBack s held now u = false := by
        rcases List.mem_append.mp hu with hmem | hmem
        · simpa using (List.mem_filter.mp hmem).2
        · rw [hhandlers] at hmem
          exact h.saving_kept hmem now
      have hfreed : u.number < entry.count - (held.filter fun v =>
          givenBack s held now v && decide (v.toSlot.IsOf (faceKey entry))).length := by
        rw [← List.length_map NumberedSlot.number]
        refine lt_sub_length (h.nodup_numbers entry.nid ?_) ?_ ?_ hnumber
        · intro v hv
          exact (of_decide_eq_true (Bool.and_eq_true_iff.mp hv).2).1
        · intro n hn
          obtain ⟨v, hv, rfl⟩ := List.mem_map.mp hn
          obtain ⟨hmem, hback⟩ := List.mem_filter.mp hv
          obtain ⟨hgiven, hkey⟩ := Bool.and_eq_true_iff.mp hback
          exact hlast v hmem hgiven u (hsub.subset hu) hkept
            (hof.1.trans (of_decide_eq_true hkey).1.symm)
        · intro n hn
          obtain ⟨v, hv, rfl⟩ := List.mem_map.mp hn
          obtain ⟨hmem, hback⟩ := List.mem_filter.mp hv
          exact h.number_lt (List.mem_append_left _ hmem) hentry
            (of_decide_eq_true (Bool.and_eq_true_iff.mp hback).2).1
      have hstale := h.length_stale_le now (faceKey entry)
      show u.number < entry.count - _
      omega
  · intro accountId use huse
    obtain ⟨hbefore, hfresh⟩ := get?_pendingFaceUses_releaseStale.mp huse
    obtain ⟨u, hu, hslot⟩ := h.pending accountId use hbefore
    refine ⟨u, find?_filter_of_find? hu ?_, hslot⟩
    have haccount : u.accountId = accountId := congrArg Slot.accountId hslot
    simp [givenBack, haccount, hbefore, hfresh]

end

section Commit

variable [JsNumber F]

variable {descriptor : List F}

theorem nidFor_of_match (h : Numbering s held) {network : Network} {j : Nat} {entry : FaceEntry F}
    (hmatch : findMatchingFace s.faceDescriptorDB descriptor network = some (j, entry))
    (uuid : String) : s.nidFor descriptor network uuid = entry.nid := by
  have hentry := List.mem_of_getElem? (findMatchingFace_some hmatch).1
  rw [nidFor, hmatch]
  exact if_neg (h.named entry hentry)

variable {req : VerifyRequest F}

theorem faces_of_atMostNamed (h : Numbering s held) {uuid : String} {db : List (FaceEntry F)}
    (hdb : s.AtMostNamed req descriptor uuid db) : db = s.faceDescriptorDB := by
  rcases hdb with hdb | hdb
  · exact hdb
  · rw [hdb]
    cases hmatch : findMatchingFace s.faceDescriptorDB descriptor req.network with
    | none => rfl
    | some face =>
      obtain ⟨j, entry⟩ := face
      obtain ⟨hj, hval⟩ := List.getElem?_eq_some_iff.mp (findMatchingFace_some hmatch).1
      rw [h.nidFor_of_match hmatch uuid]
      show s.faceDescriptorDB.set j entry = _
      rw [← hval, List.set_getElem_self]

omit [JsNumber F] in
/-- A commit numbers its slot with the counter, and the counter goes on. -/
theorem commit (h : Numbering s held) {i : Nat} {accountId : Hex}
    (hframe : s.handlers[i]? = some (some (.hashing req accountId descriptor)))
    {nid : String} {faceCount : Nat}
    (hnids : ((s'.faceDescriptorDB.map faceKey).map Prod.fst).Nodup)
    (hnamed : ∀ entry ∈ s'.faceDescriptorDB, entry.nid ≠ "")
    (hcounts : ∀ entry ∈ s.faceDescriptorDB, ∃ entry' ∈ s'.faceDescriptorDB,
      faceKey entry' = faceKey entry ∧ entry.count ≤ entry'.count)
    (hcount : ∀ entry ∈ s.faceDescriptorDB, entry.nid = nid → entry.count ≤ faceCount)
    (hown : ∃ entry ∈ s'.faceDescriptorDB, (⟨accountId, nid, req.network⟩ : Slot).IsOf
      (faceKey entry) ∧ faceCount < entry.count) (huses : s'.pendingFaceUses = s.pendingFaceUses)
    (hhandlers : s'.handlers =
      s.handlers.set i (some (.saving req accountId nid faceCount))) : Numbering s' held := by
  have hperm := filterMap_set_perm (y := some (.saving req accountId nid faceCount)) hframe
    savingNumbered?
  replace hperm : (s'.handlers.filterMap savingNumbered?).Perm
      ((⟨⟨accountId, nid, req.network⟩, faceCount⟩ : NumberedSlot) ::
        s.handlers.filterMap savingNumbered?) := by
    rw [hhandlers]
    exact hperm
  have huse : (inUse s' held).Perm
      ((⟨⟨accountId, nid, req.network⟩, faceCount⟩ : NumberedSlot) :: inUse s held) :=
    (hperm.append_left held).trans List.perm_middle
  refine ⟨hnids, hnamed, ?_, ?_, ?_, by rw [huses]; exact h.pending⟩
  · rw [hhandlers]
    refine h.plain_set ?_
    rintro frame hframe'
    rw [← Option.some.inj hframe']
    exact h.plain (.hashing req accountId descriptor) (List.mem_of_getElem? hframe)
  · rw [(huse.map NumberedSlot.code).nodup_iff, List.map_cons, List.nodup_cons]
    refine ⟨?_, h.apart⟩
    intro hmem
    obtain ⟨u, hu, hcode⟩ := List.mem_map.mp hmem
    obtain ⟨entry, hentry, hof, hlt⟩ := h.below u hu
    have hnid : u.nid = nid := congrArg Prod.fst hcode
    have hnumber : u.number = faceCount := congrArg Prod.snd hcode
    have hle := hcount entry hentry (hof.1.symm.trans hnid)
    omega
  · intro u hu
    rcases List.mem_cons.mp (huse.mem_iff.mp hu) with rfl | hu
    · exact hown
    · obtain ⟨entry, hentry, hof, hlt⟩ := h.below u hu
      obtain ⟨entry', hentry', hkey, hle⟩ := hcounts entry hentry
      exact ⟨entry', hentry', by rw [hkey]; exact hof, Nat.lt_of_lt_of_le hlt hle⟩

/-- A commit on a face that is stored. -/
theorem commit_stored (h : Numbering s held) {i : Nat} {accountId : Hex}
    (hframe : s.handlers[i]? = some (some (.hashing req accountId descriptor)))
    {j : Nat} {entry : FaceEntry F}
    (hmatch : findMatchingFace s.faceDescriptorDB descriptor req.network = some (j, entry))
    (uuid : String) (now : Int) :
    Numbering
      { s.committed req descriptor uuid now with
        handlers := s.handlers.set i (some (.saving req accountId
          (s.nidFor descriptor req.network uuid) (s.faceCount descriptor req.network))) }
      held := by
  obtain ⟨hget, hnetwork⟩ := findMatchingFace_some hmatch
  have hentry := List.mem_of_getElem? hget
  have hnid := h.nidFor_of_match hmatch uuid
  have hcount : s.faceCount descriptor req.network = entry.count := by
    rw [faceCount, hmatch]
    rfl
  obtain ⟨front, back, hdb, hset⟩ := exists_set_eq hget
  -- the entry that is replaced keeps its key
  have hdb' : (s.committed req descriptor uuid now).faceDescriptorDB = front ++
      { entry with
        count := entry.count + 1
        descriptor := centroid entry.descriptor descriptor } :: back := by
    rw [committed, hnid, hmatch, ← hset]
    rfl
  have hkeys : (s.committed req descriptor uuid now).faceDescriptorDB.map faceKey =
      s.faceDescriptorDB.map faceKey := by
    rw [hdb', hdb, List.map_append, List.map_append]
    rfl
  rw [hcount, hnid]
  refine h.commit hframe (by rw [hkeys]; exact h.nids) ?_ ?_ ?_ ?_ rfl rfl
  · intro e he
    have hkey : faceKey e ∈ s.faceDescriptorDB.map faceKey := by
      rw [← hkeys]
      exact List.mem_map_of_mem he
    obtain ⟨old, hold, heq⟩ := List.mem_map.mp hkey
    rw [← show old.nid = e.nid from congrArg Prod.fst heq]
    exact h.named old hold
  · intro e he
    rw [hdb] at he
    rw [hdb']
    rcases List.mem_append.mp he with hin | hin
    · exact ⟨e, List.mem_append_left _ hin, rfl, Nat.le_refl _⟩
    · rcases List.mem_cons.mp hin with rfl | hin
      · exact ⟨_, List.mem_append_right _ List.mem_cons_self, rfl, Nat.le_succ _⟩
      · exact ⟨e, List.mem_append_right _ (List.mem_cons_of_mem _ hin), rfl, Nat.le_refl _⟩
  · intro e he heq
    rw [h.entry_eq he hentry heq]
  · rw [hdb']
    exact ⟨_, List.mem_append_right _ List.mem_cons_self, ⟨rfl, hnetwork.symm⟩,
      Nat.lt_succ_self _⟩

/-- A commit on a face that is new. -/
theorem commit_new (h : Numbering s held) {i : Nat} {accountId : Hex}
    (hframe : s.handlers[i]? = some (some (.hashing req accountId descriptor)))
    (hmatch : findMatchingFace s.faceDescriptorDB descriptor req.network = none)
    {uuid : String} (hnamed : uuid ≠ "")
    (hfresh : ∀ entry ∈ s.faceDescriptorDB, entry.nid ≠ uuid) (now : Int) :
    Numbering
      { s.committed req descriptor uuid now with
        handlers := s.handlers.set i (some (.saving req accountId
          (s.nidFor descriptor req.network uuid) (s.faceCount descriptor req.network))) }
      held := by
  have hnid : s.nidFor descriptor req.network uuid = uuid := by
    rw [nidFor, hmatch]
    rfl
  have hcount : s.faceCount descriptor req.network = 0 := by
    rw [faceCount, hmatch]
    rfl
  have hdb : (s.committed req descriptor uuid now).faceDescriptorDB =
      s.faceDescriptorDB ++ [⟨descriptor, 1, req.network, uuid⟩] := by
    rw [committed, hmatch, hnid]
    rfl
  rw [hcount, hnid]
  refine h.commit hframe ?_ ?_ ?_ ?_ ?_ rfl rfl
  · rw [hdb, List.map_append, List.map_append]
    refine List.nodup_append.mpr ⟨h.nids, List.nodup_singleton _, ?_⟩
    intro a ha b hb heq
    rw [List.mem_singleton.mp hb] at heq
    obtain ⟨key, hkey, rfl⟩ := List.mem_map.mp ha
    obtain ⟨entry, hentry, rfl⟩ := List.mem_map.mp hkey
    exact hfresh entry hentry heq
  · intro e he
    rw [hdb] at he
    rcases List.mem_append.mp he with hin | hin
    · exact h.named e hin
    · rw [List.mem_singleton.mp hin]
      exact hnamed
  · intro e he
    rw [hdb]
    exact ⟨e, List.mem_append_left _ he, rfl, Nat.le_refl _⟩
  · exact fun e he heq => absurd heq (hfresh e he)
  · rw [hdb]
    exact ⟨_, List.mem_append_right _ List.mem_cons_self, ⟨rfl, rfl⟩, Nat.zero_lt_one⟩

end Commit

end Numbering

/-! ## One event -/

section Events

theorem turn_eq_some {e : Event F} {frame : VerifyFrame F} (h : e.turn = some frame) :
    ∃ i uuid now, e.input = .resume i uuid now ∧
      e.before.handlers[i]? = some (some frame) := by
  unfold Event.turn at h
  split at h
  · next i uuid now hinput => exact ⟨i, uuid, now, hinput, Option.join_eq_some_iff.mp h⟩
  · cases h

theorem numbered?_of_turn_none {e : Event F} (h : e.turn = none) : e.numbered? = none := by
  unfold Event.numbered?
  rw [h]
  split <;> rfl

theorem mem_heldAfter {held : List NumberedSlot} {e : Event F} {u : NumberedSlot} (hu : u ∈ held)
    (hkept : ∀ now, e.input = .releaseStale now → givenBack e.before held now u = false) :
    u ∈ heldAfter held e := by
  unfold heldAfter
  split
  · exact List.mem_cons_of_mem _ hu
  · split
    · next now hinput =>
        refine List.mem_filter.mpr ⟨hu, ?_⟩
        rw [hkept now hinput]
        rfl
    · exact hu

variable [JsNumber F] {P : Primitives F} {cfg : RelayConfig F} {w : History F} {input : Input F}

theorem heldSlots_step : heldSlots (w.step P cfg input).events =
    heldAfter (heldSlots w.events) ⟨w.relay, input, (w.relay.handle P cfg input).2⟩ := by
  unfold heldSlots History.step
  rw [List.foldl_append]
  rfl

variable {nullifier : String}

variable {accountId : Hex}

omit [JsNumber F] in
theorem attest_nullifier {s : Relay F} {req : VerifyRequest F} {nid : String}
    {faceCount : Nat} {now : Int} {attestation : TypedAttestation}
    {pub : Hex} (hplain : req.nullifier.filter isAnchor = none)
    (h : (attest P cfg s req accountId nid faceCount now).2 =
      .attested nullifier attestation pub) : nullifier = nid ++ "#" ++ toString faceCount := by
  unfold attest at h
  rw [hplain] at h
  dsimp only at h
  split at h
  · cases h
  · cases h
    rfl

theorem numbered?_of_attested (hnumbering : Numbering w.relay (heldSlots w.events))
    {req : VerifyRequest F} {nid : String} {faceCount : Nat} {attestation : TypedAttestation}
    {pub : Hex}
    (hturn : (Event.mk w.relay input (w.relay.handle P cfg input).2).turn =
      some (.saving req accountId nid faceCount))
    (hanswer : (w.relay.handle P cfg input).2 = some (.attested nullifier attestation pub)) :
    (Event.mk w.relay input (w.relay.handle P cfg input).2).numbered? =
        some ⟨⟨accountId, nid, req.network⟩, faceCount⟩ ∧
      nullifier = nid ++ "#" ++ toString faceCount := by
  constructor
  · unfold Event.numbered?
    rw [hturn]
    dsimp only
    rw [hanswer]
    rfl
  · obtain ⟨i, uuid, now, rfl, hframe⟩ := turn_eq_some hturn
    replace hframe : w.relay.handlers[i]? = some (some (.saving req accountId nid faceCount)) :=
      hframe
    have hplain := hnumbering.plain _ (List.mem_of_getElem? hframe)
    replace hanswer : (w.relay.resume P cfg i uuid now).2 =
      some (.attested nullifier attestation pub) := hanswer
    unfold resume at hanswer
    rw [hframe] at hanswer
    exact attest_nullifier hplain (Option.some.inj hanswer)

theorem givenNullifier_step (h : GivenNullifier (w.step P cfg input) accountId nullifier) :
    GivenNullifier w accountId nullifier ∨ ∃ req nid faceCount attestation pub,
      (Event.mk w.relay input (w.relay.handle P cfg input).2).turn =
        some (.saving req accountId nid faceCount) ∧
      (w.relay.handle P cfg input).2 = some (.attested nullifier attestation pub) := by
  obtain ⟨e, he, hattests⟩ := h
  rcases List.mem_append.mp he with hold | hnew
  · exact .inl ⟨e, hold, hattests⟩
  · rw [List.mem_singleton.mp hnew] at hattests
    exact .inr hattests

theorem openedOn_step (h : OpenedOn P (w.step P cfg input) accountId nullifier) :
    OpenedOn P w accountId nullifier ∨ ∃ block network, input = .archive block network ∧
      Opens P w.relay block ∧ block.accountId = accountId ∧
      block.identityCommitment = some (deriveCommitment P nullifier accountId) := by
  obtain ⟨e, he, hopens⟩ := h
  rcases List.mem_append.mp he with hold | hnew
  · exact .inl ⟨e, hold, hopens⟩
  · rw [List.mem_singleton.mp hnew] at hopens
    exact .inr hopens

end Events

/-! ## Runs -/

/-- The numbering, and that opened accounts still hold their slots. -/
structure KeptNumbers (P : Primitives F) (w : History F) : Prop where
  numbering : Numbering w.relay (heldSlots w.events)
  carried : ∀ accountId nullifier, Carries P w accountId nullifier →
    ∃ u ∈ heldSlots w.events, u.accountId = accountId ∧ u.nullifier = nullifier

namespace KeptNumbers

variable [JsNumber F] {P : Primitives F} {cfg : RelayConfig F} {w : History F} {input : Input F}

omit [JsNumber F] in
theorem new : KeptNumbers P (History.new : History F) where
  numbering :=
    { nids := List.nodup_nil
      named := fun _ h => (List.not_mem_nil h).elim
      plain := fun _ h => (List.not_mem_nil h).elim
      apart := List.nodup_nil
      below := fun _ h => (List.not_mem_nil h).elim
      pending := fun _ _ h => by cases h }
  carried _ _ h := by
    obtain ⟨e, he, _⟩ := h.1
    exact (List.not_mem_nil he).elim

theorem carried_step (h : KeptNumbers P w) (hlast : FreesLast P w input) (accountId : Hex)
    (nullifier : String) (hcarries : Carries P (w.step P cfg input) accountId nullifier) :
    ∃ u ∈ heldSlots (w.step P cfg input).events,
      u.accountId = accountId ∧ u.nullifier = nullifier := by
  rw [heldSlots_step]
  rcases givenNullifier_step hcarries.1 with hattested |
      ⟨req, nid, faceCount, attestation, pub, hturn, hanswer⟩
  · rcases openedOn_step hcarries.2 with hopened | ⟨block, network, rfl, hopens, rfl, hcommits⟩
    · obtain ⟨u, hu, haccount, hnullifier⟩ := h.carried accountId nullifier ⟨hattested, hopened⟩
      refine ⟨u, mem_heldAfter hu ?_, haccount, hnullifier⟩
      rintro now rfl
      by_contra hgiven
      refine (hlast u hu (by simpa using hgiven)).1 ?_
      rw [haccount, hnullifier]
      exact hopened
    · obtain ⟨u, hu, hslot⟩ := hlast hopens nullifier hattested hcommits
      exact ⟨u, mem_heldAfter hu (fun _ hinput => by cases hinput), hslot⟩
  · obtain ⟨hnumbered, hnullifier⟩ := numbered?_of_attested h.numbering hturn hanswer
    refine ⟨⟨⟨accountId, nid, req.network⟩, faceCount⟩, ?_, rfl, hnullifier.symm⟩
    unfold heldAfter
    rw [hnumbered]
    exact List.mem_cons_self

theorem heldSlots_frame (hturn : ∀ i uuid now, input ≠ .resume i uuid now)
    (htimer : ∀ now, input ≠ .releaseStale now) :
    heldSlots (w.step P cfg input).events = heldSlots w.events := by
  have hnone : (Event.mk w.relay input (w.relay.handle P cfg input).2).turn = none := by
    unfold Event.turn
    split
    · next hinput => exact absurd hinput (hturn _ _ _)
    · rfl
  rw [heldSlots_step]
  unfold heldAfter
  rw [numbered?_of_turn_none hnone]
  dsimp only
  split
  · next now => exact absurd rfl (htimer now)
  · rfl

section

variable (h : KeptNumbers P w)
include h

theorem resume_step {i : Nat} {uuid : String} {now : Int}
    (hfresh : DrawsFreshNid w (.resume i uuid now)) :
    Numbering (w.step P cfg (.resume i uuid now)).relay
      (heldSlots (w.step P cfg (.resume i uuid now)).events) := by
  have hN := h.numbering
  rw [heldSlots_step]
  show Numbering (w.relay.resume P cfg i uuid now).1 (heldAfter (heldSlots w.events)
    ⟨w.relay, .resume i uuid now, (w.relay.resume P cfg i uuid now).2⟩)
  obtain ⟨hnone, hr⟩ | ⟨req, accountId, descriptor, hframe,
      ⟨db, status, message, hdb, hr⟩ | ⟨-, -, hr⟩⟩ |
      ⟨req, accountId, nid, faceCount, hframe, hr | ⟨nullifier, attestation, hr⟩⟩ :=
    resume_cases P cfg w.relay i uuid now
  · rw [hr]
    exact hN
  · rw [hr, hN.faces_of_atMostNamed hdb]
    exact hN.drop hframe
  · rw [hr]
    obtain ⟨hnamed, hnew⟩ := hfresh req accountId descriptor hframe
    cases hmatch : findMatchingFace w.relay.faceDescriptorDB descriptor req.network with
    | none => exact hN.commit_new hframe hmatch hnamed hnew now
    | some face => exact hN.commit_stored hframe hmatch uuid now
  · rw [hr]
    exact hN.drop hframe
  · rw [hr]
    have hnumbered : (Event.mk w.relay (.resume i uuid now)
        (some (.attested nullifier attestation cfg.attesterPub))).numbered? =
          some ⟨⟨accountId, nid, req.network⟩, faceCount⟩ := by
      unfold Event.numbered? Event.turn
      dsimp only
      rw [hframe]
      rfl
    unfold heldAfter
    rw [hnumbered]
    exact hN.attest hframe now

theorem release_step {now : Int} (hlast : FreesLast P w (.releaseStale now)) :
    Numbering (w.step P cfg (.releaseStale now)).relay
      (heldSlots (w.step P cfg (.releaseStale now)).events) := by
  rw [heldSlots_step]
  exact h.numbering.release now fun v hv hgiven => (hlast v hv hgiven).2

theorem frame_step (hsettles : ¬ Settles input) (hverify : ∀ req now, input ≠ .verify req now) :
    Numbering (w.step P cfg input).relay (heldSlots (w.step P cfg input).events) := by
  have hturn : ∀ i uuid now, input ≠ .resume i uuid now :=
    fun i uuid now heq => hsettles (heq ▸ trivial)
  rw [heldSlots_frame hturn fun now heq => hsettles (heq ▸ trivial)]
  obtain ⟨huses, -, hfaces, -⟩ :
      (w.relay.handle P cfg input).1.pendingFaceUses = w.relay.pendingFaceUses ∧
      (w.relay.handle P cfg input).1.usernameRegistry = w.relay.usernameRegistry ∧
      (w.relay.handle P cfg input).1.faceDescriptorDB = w.relay.faceDescriptorDB ∧
      (w.relay.handle P cfg input).1.engineBlockStore = w.relay.engineBlockStore :=
    handle_frame hsettles
  exact h.numbering.congr hfaces huses (handle_handlers hverify hturn)

theorem numbering_step (hanchor : NoAnchor w input)
    (hfresh : DrawsFreshNid w input) (hlast : FreesLast P w input) :
    Numbering (w.step P cfg input).relay (heldSlots (w.step P cfg input).events) := by
  cases input with
  | resume i uuid now => exact h.resume_step hfresh
  | releaseStale now => exact h.release_step hlast
  | archive block network =>
    rw [heldSlots_frame (fun _ _ _ heq => by cases heq) (fun _ heq => by cases heq)]
    exact h.numbering.archive P block network
  | verify req now =>
    rw [heldSlots_frame (fun _ _ _ heq => by cases heq) (fun _ heq => by cases heq)]
    show Numbering (w.relay.verify req now).1 (heldSlots w.events)
    obtain ⟨_, hv⟩ | ⟨_, hv⟩ | ⟨accountId, session, descriptor, -, -, -, -, -, hv⟩ :=
      verify_cases w.relay req now <;> rw [hv]
    · exact h.numbering
    · exact h.numbering.congr rfl rfl rfl
    · exact h.numbering.hash accountId descriptor hanchor
  | challenge | recoveryChallenge | storeShare | releaseShare =>
    exact h.frame_step (fun hsettles => hsettles) fun _ _ heq => by cases heq

theorem step (hanchor : NoAnchor w input) (hfresh : DrawsFreshNid w input)
    (hlast : FreesLast P w input) : KeptNumbers P (w.step P cfg input) :=
  ⟨h.numbering_step hanchor hfresh hlast, h.carried_step hlast⟩

omit [JsNumber F] in
theorem eq_of_nullifier_eq {u v : NumberedSlot}
    (hu : u ∈ heldSlots w.events) (hv : v ∈ heldSlots w.events)
    (heq : u.nullifier = v.nullifier) : u = v :=
  List.inj_on_of_nodup_map h.numbering.apart (List.mem_append_left _ hu)
    (List.mem_append_left _ hv) (NumberedSlot.code_eq_of_nullifier_eq heq)

omit [JsNumber F] in
theorem nullifiersDistinct : NullifiersDistinct P w := by
  have hdistinct : ∀ accountId other nullifier otherNullifier, accountId ≠ other →
      Carries P w accountId nullifier → Carries P w other otherNullifier →
        nullifier ≠ otherNullifier := by
    rintro accountId other nullifier _ hne hcarries hother rfl
    obtain ⟨u, hu, rfl, hnullifier⟩ := h.carried _ _ hcarries
    obtain ⟨v, hv, rfl, hnullifier'⟩ := h.carried _ _ hother
    exact hne (by rw [h.eq_of_nullifier_eq hu hv (hnullifier.trans hnullifier'.symm)])
  refine ⟨hdistinct, ?_⟩
  intro used accountId nullifier hcarries hused
  have hnew : used.has nullifier = false := by
    by_contra hhas
    obtain ⟨other, hne, hother⟩ := hused nullifier (by simpa using hhas)
    exact hdistinct other accountId nullifier nullifier hne hother hcarries rfl
  simp [IdentityRegistry.register, hnew]

end

end KeptNumbers

/-- While the timer gives back only what was numbered last, and accounts open on slots that
they hold, no nullifier is given to two accounts that open. -/
theorem nullifiers_distinct [JsNumber F] (P : Primitives F) (cfg : RelayConfig F)
    (inputs : List (Input F))
    (hanchor : Run.StepsMeet (History.step P cfg) NoAnchor History.new inputs)
    (hfresh : Run.StepsMeet (History.step P cfg) DrawsFreshNid History.new inputs)
    (hlast : Run.StepsMeet (History.step P cfg) (FreesLast P) History.new inputs) :
    Run.Always (History.step P cfg) (NullifiersDistinct P) History.new inputs := by
  have hall : Run.StepsMeet (History.step P cfg) (fun w input =>
      (NoAnchor w input ∧ DrawsFreshNid w input) ∧ FreesLast P w input) History.new inputs :=
    (hanchor.and hfresh).and hlast
  exact Run.always_of_invariant (I := KeptNumbers P)
    (fun _ _ hw h => hw.step h.1.1 h.1.2 h.2) (fun _ hw => hw.nullifiersDistinct)
    KeptNumbers.new hall

section Samples

open NeuronWeb.Sample (relayConfig enrol)

/-- An open block of the account that commits to the nullifier. -/
def openingOn (accountId : Hex) (nullifier : String) : Block Rat :=
  let L := EngineLedger.new Sample.primitives
  Sample.continuing L
    { Sample.header L accountId with
      identityCommitment := some (deriveCommitment Sample.primitives nullifier accountId) }

/-- Whether the turn of a handler draws an nid that no face has. -/
def freshNid (w : History Rat) (i : Nat) (uuid : String) : Bool :=
  match w.relay.handlers[i]? with
  | some (some (.hashing _ _ _)) =>
    decide (uuid ≠ "") && w.relay.faceDescriptorDB.all fun entry => entry.nid ≠ uuid
  | _ => true

theorem drawsFreshNid_of_freshNid {w : History Rat} {i : Nat} {uuid : String}
    (h : freshNid w i uuid = true) (now : Int) : DrawsFreshNid w (.resume i uuid now) := by
  intro req accountId descriptor hframe
  simpa only [freshNid, hframe, Bool.and_eq_true, decide_eq_true_eq, List.all_eq_true] using h

/-- Whether an event attests the account with the nullifier. -/
def attests (accountId : Hex) (nullifier : String) (e : Event Rat) : Bool :=
  match e.turn, e.answer with
  | some (.saving _ account _ _), some (.attested given _ _) =>
    decide (account = accountId ∧ given = nullifier)
  | _, _ => false

/-- Whether an event archives an open block of the account that commits to the nullifier. -/
def archivesOpening (accountId : Hex) (nullifier : String) (e : Event Rat) : Bool :=
  match e.input with
  | .archive block _ => verifyBlock Sample.primitives block &&
      !e.before.engineBlockStore.has block.hash &&
      decide (block.type = .open ∧ block.accountId = accountId ∧ block.identityCommitment =
        some (deriveCommitment Sample.primitives nullifier accountId))
  | _ => false

theorem carries_of_shown {w : History Rat} {accountId : Hex} {nullifier : String}
    (hattests : w.events.any (attests accountId nullifier) = true)
    (hopens : w.events.any (archivesOpening accountId nullifier) = true) :
    Carries Sample.primitives w accountId nullifier := by
  obtain ⟨e, he, hattest⟩ := List.any_eq_true.mp hattests
  obtain ⟨e', he', hopen⟩ := List.any_eq_true.mp hopens
  constructor
  · unfold attests at hattest
    split at hattest
    · next req account nid faceCount given attestation pub hturn hanswer =>
        obtain ⟨rfl, rfl⟩ := of_decide_eq_true hattest
        exact ⟨e, he, req, nid, faceCount, attestation, pub, hturn, hanswer⟩
    · cases hattest
  · unfold archivesOpening at hopen
    split at hopen
    · next block network hinput =>
        simp only [Bool.and_eq_true, Bool.not_eq_true', decide_eq_true_eq] at hopen
        obtain ⟨⟨hverify, hnew⟩, htype, haccount, hcommits⟩ := hopen
        exact ⟨e', he', block, network, hinput, ⟨hverify, hnew, htype⟩, haccount, hcommits⟩
    · cases hopen

/-- Two accounts are attested, the second opens, the first is given up, and a third is
attested and opens. -/
def reissue : List (Input Rat) :=
  [.challenge "127.0.0.1" .testnet "c" true 0, .verify (enrol .testnet "02a" "" "c" 0) 1,
    .resume 0 "n" 2, .resume 0 "" 3,
    .challenge "127.0.0.1" .testnet "d" true 4, .verify (enrol .testnet "02b" "" "d" 0) 5,
    .resume 1 "m" 6, .resume 1 "" 7, .archive (openingOn "02b" "n#1") .testnet,
    .releaseStale 400000,
    .challenge "127.0.0.1" .testnet "e" true 400001,
    .verify (enrol .testnet "02c" "" "e" 0) 400002,
    .resume 2 "k" 400003, .resume 2 "" 400004, .archive (openingOn "02c" "n#1") .testnet]

/-- The counter goes back by one for the first account, and the third is given the nullifier
that the second has opened on. -/
theorem nullifier_reissued : ¬ ∀ (P : Primitives Rat) (cfg : RelayConfig Rat)
    (inputs : List (Input Rat)),
    Run.StepsMeet (History.step P cfg) NoAnchor History.new inputs →
    Run.StepsMeet (History.step P cfg) DrawsFreshNid History.new inputs →
    Run.Always (History.step P cfg) (NullifiersDistinct P) History.new inputs := by
  intro hall
  have halways := hall Sample.primitives relayConfig reissue
    ⟨trivial, rfl, trivial, trivial, trivial, rfl, trivial, trivial, trivial, trivial, trivial,
      rfl, trivial, trivial, trivial, trivial⟩
    ⟨trivial, trivial, drawsFreshNid_of_freshNid (by decide +kernel) _,
      drawsFreshNid_of_freshNid (by decide +kernel) _, trivial, trivial,
      drawsFreshNid_of_freshNid (by decide +kernel) _,
      drawsFreshNid_of_freshNid (by decide +kernel) _, trivial, trivial, trivial, trivial,
      drawsFreshNid_of_freshNid (by decide +kernel) _,
      drawsFreshNid_of_freshNid (by decide +kernel) _, trivial, trivial⟩
  have hlast := Run.Always.at_final halways
  have hsecond : Carries Sample.primitives (Run.final
      (History.step Sample.primitives relayConfig) History.new reissue) "02b" "n#1" :=
    carries_of_shown (by decide +kernel) (by decide +kernel)
  have hthird : Carries Sample.primitives (Run.final
      (History.step Sample.primitives relayConfig) History.new reissue) "02c" "n#1" :=
    carries_of_shown (by decide +kernel) (by decide +kernel)
  exact hlast.distinct "02b" "02c" "n#1" "n#1" (by decide) hsecond hthird rfl

/-- An account opens, a second is attested and given up, and a third is attested in its
stead and opens. -/
def giveUpLast : List (Input Rat) :=
  [.challenge "127.0.0.1" .testnet "c" true 0, .verify (enrol .testnet "02a" "" "c" 0) 1,
    .resume 0 "n" 2, .resume 0 "" 3, .archive (openingOn "02a" "n#0") .testnet,
    .challenge "127.0.0.1" .testnet "d" true 4, .verify (enrol .testnet "02b" "" "d" 0) 5,
    .resume 1 "m" 6, .resume 1 "" 7, .releaseStale 400000,
    .challenge "127.0.0.1" .testnet "e" true 400001,
    .verify (enrol .testnet "02c" "" "e" 0) 400002,
    .resume 2 "k" 400003, .resume 2 "" 400004, .archive (openingOn "02c" "n#1") .testnet]

/-- Whether the timer gives back slots of accounts without a block only, and the last ones. -/
def givesBackLast (w : History Rat) (now : Int) : Bool :=
  let held := heldSlots w.events
  held.all fun v => !givenBack w.relay held now v ||
    ((w.events.all fun e =>
        match e.input with
        | .archive block _ => decide (block.accountId ≠ v.accountId)
        | _ => true) &&
      (inUse w.relay held).all fun u => givenBack w.relay held now u ||
        decide (u.nid = v.nid → u.number < v.number))

theorem freesLast_of_givesBackLast {w : History Rat} {now : Int}
    (h : givesBackLast w now = true) :
    FreesLast Sample.primitives w (.releaseStale now) := by
  intro v hv hgiven
  have hone := List.all_eq_true.mp h v hv
  rw [hgiven, Bool.not_true, Bool.false_or, Bool.and_eq_true, List.all_eq_true,
    List.all_eq_true] at hone
  obtain ⟨hnone, hlast⟩ := hone
  constructor
  · rintro ⟨e, he, block, network, hinput, -, haccount, -⟩
    have hother := hnone e he
    rw [hinput] at hother
    exact of_decide_eq_true hother haccount
  · intro u hu hkept
    have hlower := hlast u hu
    rw [hkept, Bool.false_or] at hlower
    exact of_decide_eq_true hlower

/-- Whether an account holds the slots of all the nullifiers that it was given. -/
def holdsAll (w : History Rat) (accountId : Hex) : Bool :=
  w.events.all fun e =>
    match e.turn, e.answer with
    | some (.saving _ account _ _), some (.attested given _ _) =>
      decide (account ≠ accountId) || (heldSlots w.events).any fun u =>
        decide (u.accountId = accountId ∧ u.nullifier = given)
    | _, _ => true

theorem freesLast_of_holdsAll {w : History Rat} {block : Block Rat}
    (h : holdsAll w block.accountId = true) (network : Network) :
    FreesLast Sample.primitives w (.archive block network) := by
  rintro - nullifier ⟨e, he, req, nid, faceCount, attestation, pub, hturn, hanswer⟩ -
  have hone := List.all_eq_true.mp h e he
  rw [hturn, hanswer] at hone
  simp only [ne_eq, not_true_eq_false, decide_false, Bool.false_or, List.any_eq_true,
    decide_eq_true_eq] at hone
  exact hone

/-- The number of the one given up is given again, and once only it is opened on. -/
theorem nullifiers_distinct_giveUpLast :
    Run.Always (History.step Sample.primitives relayConfig)
      (NullifiersDistinct Sample.primitives) History.new giveUpLast := by
  apply nullifiers_distinct
  · exact ⟨trivial, rfl, trivial, trivial, trivial, trivial, rfl, trivial, trivial, trivial,
      trivial, rfl, trivial, trivial, trivial, trivial⟩
  · exact ⟨trivial, trivial, drawsFreshNid_of_freshNid (by decide +kernel) _,
      drawsFreshNid_of_freshNid (by decide +kernel) _, trivial, trivial, trivial,
      drawsFreshNid_of_freshNid (by decide +kernel) _,
      drawsFreshNid_of_freshNid (by decide +kernel) _, trivial, trivial, trivial,
      drawsFreshNid_of_freshNid (by decide +kernel) _,
      drawsFreshNid_of_freshNid (by decide +kernel) _, trivial, trivial⟩
  · exact ⟨trivial, trivial, trivial, trivial, freesLast_of_holdsAll (by decide +kernel) _,
      trivial, trivial, trivial, trivial, freesLast_of_givesBackLast (by decide +kernel),
      trivial, trivial, trivial, trivial, freesLast_of_holdsAll (by decide +kernel) _, trivial⟩

end Samples

end NeuronWeb.Relay
