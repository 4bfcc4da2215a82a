/-
  Relay/FaceSlots: how many opened accounts one face can have.

  A slot of a face is taken when a verify handler commits, for the account that its request
  names, and given back by the timer; the attestation itself never expires. The counter of an
  entry is the number of its taken slots (`Counts`), so it bounds the accounts that still have
  one.
-/
import Mathlib.Data.Multiset.AddSub
import NeuronWeb.Relay.Sample
import NeuronWeb.Relay.Turns

set_option autoImplicit false

namespace NeuronWeb.Relay

variable {F : Type}

/-! ## Slots that are taken -/

/-- A slot of a face, taken for an account. -/
structure Slot where
  accountId : Hex
  nid : String
  network : Network
  deriving DecidableEq

/-- The slot that a pending use holds. -/
def slotOf (entry : Hex × FaceUse) : Slot := ⟨entry.1, entry.2.nid, entry.2.network⟩

section Definitions

variable [JsNumber F]

/-- The slots that are taken after an event: a commit takes one, the timer gives back those
of the stale uses. -/
def slotsAfter (slots : Multiset Slot) (e : Event F) : Multiset Slot :=
  match e.input with
  | .resume _ uuid _ =>
    match e.turn, e.answer with
    | some (.hashing req accountId descriptor), none =>
      ⟨accountId, e.before.nidFor descriptor req.network uuid, req.network⟩ ::ₘ slots
    | _, _ => slots
  | .releaseStale now =>
    slots -
      Multiset.ofList ((staleUses now e.before.pendingFaceUses.entries).map slotOf)
  | _ => slots

def takenSlots (events : List (Event F)) : Multiset Slot := events.foldl slotsAfter 0

variable {Person : Type} (person : List F → Person)

/-- The persons of the stored faces after an event: a commit stores the face that it found no
entry for. -/
def ownersAfter (owners : List Person) (e : Event F) : List Person :=
  match e.turn, e.answer with
  | some (.hashing req _ descriptor), none =>
    match findMatchingFace e.before.faceDescriptorDB descriptor req.network with
    | some _ => owners
    | none => owners ++ [person descriptor]
  | _, _ => owners

def owners (events : List (Event F)) : List Person := events.foldl (ownersAfter person) []

/-- `findMatchingFace` finds the person's own entry for a descriptor, if there is one. -/
def Recognises (w : History F) (descriptor : List F) (network : Network) : Prop :=
  match findMatchingFace w.relay.faceDescriptorDB descriptor network with
  | some (i, _) => (owners person w.events)[i]? = some (person descriptor)
  | none => ∀ (i : Nat) (entry : FaceEntry F), w.relay.faceDescriptorDB[i]? = some entry →
      entry.network = network → (owners person w.events)[i]? ≠ some (person descriptor)

/-- What the relay is promised: faces are recognised, and `randomUUID()` does not repeat
itself. -/
def Promised (w : History F) : Input F → Prop
  | .resume i uuid _ => ∀ req accountId descriptor,
      w.relay.handlers[i]? = some (some (.hashing req accountId descriptor)) →
      Recognises person w descriptor req.network ∧ uuid ≠ "" ∧
        ∀ entry ∈ w.relay.faceDescriptorDB, entry.nid ≠ uuid
  | _ => True

/-- The account was attested for the person on the network. -/
def AttestedFor (w : History F) (h : Person) (network : Network) (accountId : Hex) : Prop :=
  ∃ e ∈ w.events, ∃ req nid descriptor, e.attestation? = some (req, accountId, nid) ∧
    req.network = network ∧ req.descriptor = some descriptor ∧ person descriptor = h

/-- No person has more opened accounts on a network, of those attested, than its faces may. -/
def FaceBound (cfg : RelayConfig F) (w : History F) : Prop :=
  ∀ (h : Person) (network : Network) (accounts : List Hex), accounts.Nodup →
    (∀ accountId ∈ accounts,
      AttestedFor person w h network accountId ∧ Opened w.relay accountId) →
    accounts.length ≤ cfg.FACE_MAX network

/-- An input that leaves opened accounts their slots: an open block arrives while every human
that its account was attested for has a slot taken for it, and the timer does not give back
the last slot that is taken for an opened account. -/
def SparesSlots (P : Primitives F) (w : History F) : Input F → Prop
  | .archive block _ => Opens P w.relay block → ∀ e ∈ w.events, ∀ req nid,
      e.attestation? = some (req, block.accountId, nid) →
      (⟨block.accountId, nid, req.network⟩ : Slot) ∈ takenSlots w.events
  | .releaseStale now => ∀ accountId use, w.relay.pendingFaceUses.get? accountId = some use →
      stale now use = true → Opened w.relay accountId →
      2 ≤ (takenSlots w.events).count (slotOf (accountId, use))
  | _ => True

end Definitions

/-! ## The face database -/

section Faces

variable [JsNumber F]

theorem closest_some {descriptor : List F} {network : Network} {db rest : List (FaceEntry F)}
    {i : Nat} {best : Option ((Nat × FaceEntry F) × F)} {face : Nat × FaceEntry F} {d : F}
    (hrest : ∀ (j : Nat) (entry : FaceEntry F), rest[j]? = some entry →
      db[i + j]? = some entry)
    (hbest : ∀ face d, best = some (face, d) →
      db[face.1]? = some face.2 ∧ face.2.network = network)
    (h : closest descriptor network rest i best = some (face, d)) :
    db[face.1]? = some face.2 ∧ face.2.network = network := by
  induction rest generalizing i best with
  | nil => exact hbest face d h
  | cons entry rest ih =>
    have hshift : ∀ (j : Nat) (e : FaceEntry F), rest[j]? = some e →
        db[i + 1 + j]? = some e := by
      intro j e hj
      have hget := hrest (j + 1) e (by rw [List.getElem?_cons_succ, hj])
      rw [← hget]
      congr 1
      omega
    unfold closest at h
    dsimp only at h
    split at h
    · next hcloser =>
        refine ih hshift ?_ h
        intro face' d' heq
        cases heq
        exact ⟨hrest 0 entry rfl, hcloser.1⟩
    · exact ih hshift hbest h

theorem findMatchingFace_some {db : List (FaceEntry F)} {descriptor : List F}
    {network : Network} {i : Nat} {entry : FaceEntry F}
    (h : findMatchingFace db descriptor network = some (i, entry)) :
    db[i]? = some entry ∧ entry.network = network := by
  unfold findMatchingFace at h
  obtain ⟨⟨face, d⟩, hclosest, hface⟩ := Option.map_eq_some_iff.mp h
  cases hface
  refine closest_some (fun j e hj => ?_) (fun _ _ hnone => by cases hnone) hclosest
  rw [Nat.zero_add]
  exact hj

end Faces

/-- What tells a stored face apart. -/
def faceKey (entry : FaceEntry F) : String × Network := (entry.nid, entry.network)

/-- The slot is one of the face. -/
def Slot.IsOf (slot : Slot) (key : String × Network) : Prop :=
  slot.nid = key.1 ∧ slot.network = key.2

instance (slot : Slot) (key : String × Network) : Decidable (slot.IsOf key) :=
  inferInstanceAs (Decidable (_ ∧ _))

/-- The entry with some of its slots given back. -/
def lessSlots (slots : List Slot) (entry : FaceEntry F) : FaceEntry F :=
  { entry with count := entry.count - slots.countP fun slot => slot.IsOf (faceKey entry) }

theorem map_faceKey_lessSlots (slots : List Slot) (db : List (FaceEntry F)) :
    (db.map (lessSlots slots)).map faceKey = db.map faceKey := by
  rw [List.map_map]
  rfl

theorem releaseSlot_eq_map {db : List (FaceEntry F)}
    (hnodup : ((db.map faceKey).map Prod.fst).Nodup) (slot : Slot) :
    releaseSlot slot.nid slot.network db = db.map (lessSlots [slot]) := by
  have hless : ∀ entry : FaceEntry F, ¬ slot.IsOf (faceKey entry) →
      lessSlots [slot] entry = entry := by
    intro entry hother
    simp only [lessSlots, List.countP_singleton, decide_eq_true_eq, if_neg hother, Nat.sub_zero]
  induction db with
  | nil => rfl
  | cons entry rest ih =>
    rw [List.map_cons, List.map_cons, List.nodup_cons] at hnodup
    unfold releaseSlot
    split
    · next hmatch =>
        have hone : slot.IsOf (faceKey entry) := ⟨hmatch.1.symm, hmatch.2.symm⟩
        have hrest : rest.map (lessSlots [slot]) = rest := by
          rw [List.map_congr_left (g := id), List.map_id]
          intro e he
          refine hless e fun hsame => hnodup.1 ?_
          have hnid : (faceKey entry).1 = (faceKey e).1 := hone.1.symm.trans hsame.1
          rw [hnid]
          exact List.mem_map_of_mem (List.mem_map_of_mem he)
        rw [List.map_cons, hrest]
        simp only [lessSlots, List.countP_singleton, decide_eq_true_eq, if_pos hone]
    · next hother =>
        rw [ih hnodup.2, List.map_cons, hless entry fun hsame =>
          hother ⟨hsame.1.symm, hsame.2.symm⟩]

theorem foldl_releaseSlot {db : List (FaceEntry F)}
    (hnodup : ((db.map faceKey).map Prod.fst).Nodup) (entries : List (Hex × FaceUse)) :
    entries.foldl (fun db entry => releaseSlot entry.2.nid entry.2.network db) db =
      db.map (lessSlots (entries.map slotOf)) := by
  induction entries generalizing db with
  | nil =>
    rw [List.foldl_nil, List.map_congr_left (g := id), List.map_id]
    intro entry _
    rfl
  | cons entry rest ih =>
    have hfirst := releaseSlot_eq_map hnodup (slotOf entry)
    replace hfirst : releaseSlot entry.2.nid entry.2.network db =
      db.map (lessSlots [slotOf entry]) := hfirst
    rw [List.foldl_cons, hfirst, ih (by rw [map_faceKey_lessSlots]; exact hnodup),
      List.map_map]
    refine List.map_congr_left fun e _ => ?_
    simp only [Function.comp_apply, lessSlots, faceKey, List.map_cons, List.countP_cons,
      List.countP_nil, Nat.zero_add, Nat.sub_sub]
    rw [Nat.add_comm]
    rfl

/-! ## The book of slots -/

section Book

variable {Person : Type}

/-- No two stored faces have one nid, or are of one person on one network. -/
structure Faces (keys : List (String × Network)) (owners : List Person) : Prop where
  nids : (keys.map Prod.fst).Nodup
  named : ∀ key ∈ keys, key.1 ≠ ""
  owned : owners.length = keys.length
  single : ∀ (i j : Nat) (key key' : String × Network), keys[i]? = some key →
    keys[j]? = some key' → key.2 = key'.2 → owners[i]? = owners[j]? → i = j

theorem Faces.eq_of_nid {keys : List (String × Network)} {owners : List Person}
    (h : Faces keys owners) {i j : Nat} {key key' : String × Network}
    (hi : keys[i]? = some key) (hj : keys[j]? = some key') (hnid : key.1 = key'.1) : i = j := by
  have hnids : (keys.map Prod.fst)[i]? = (keys.map Prod.fst)[j]? := by
    rw [List.getElem?_map, List.getElem?_map, hi, hj, Option.map_some, Option.map_some, hnid]
  have hlt : i < (keys.map Prod.fst).length := by
    rw [List.length_map]
    exact (List.getElem?_eq_some_iff.mp hi).1
  exact (List.getElem?_inj hlt h.nids).mp hnids

theorem get_append_of_get {α : Type} {l : List α} {i : Nat} {a : α} (h : l[i]? = some a)
    (l' : List α) : (l ++ l')[i]? = some a := by
  rw [List.getElem?_append_left (List.getElem?_eq_some_iff.mp h).1, h]

theorem get_concat {α : Type} {l : List α} {i : Nat} {a b : α}
    (h : (l ++ [b])[i]? = some a) : l[i]? = some a ∨ i = l.length ∧ a = b := by
  rcases Nat.lt_or_ge i l.length with hlt | hge
  · rw [List.getElem?_append_left hlt] at h
    exact .inl h
  · rw [List.getElem?_append_right hge] at h
    obtain ⟨hi, hval⟩ := List.getElem?_eq_some_iff.mp h
    rw [List.length_singleton] at hi
    rw [List.getElem_singleton] at hval
    exact .inr ⟨by omega, hval.symm⟩

/-- A face is stored that none of the stored ones is. -/
theorem Faces.add {keys : List (String × Network)} {owners : List Person}
    (h : Faces keys owners) {key : String × Network} {p : Person} (hnamed : key.1 ≠ "")
    (hnid : key.1 ∉ keys.map Prod.fst)
    (hother : ∀ (j : Nat) (old : String × Network), keys[j]? = some old → old.2 = key.2 →
      owners[j]? ≠ some p) :
    Faces (keys ++ [key]) (owners ++ [p]) where
  nids := by
    rw [List.map_append]
    exact List.nodup_append.mpr ⟨h.nids, List.nodup_singleton _, fun a ha b hb heq => by
      rw [List.map_singleton, List.mem_singleton] at hb
      rw [heq, hb] at ha
      exact hnid ha⟩
  named k hk := by
    rcases List.mem_append.mp hk with hk | hk
    · exact h.named k hk
    · rw [List.mem_singleton.mp hk]
      exact hnamed
  owned := by
    rw [List.length_append, List.length_append, h.owned]
    rfl
  single i j old old' hi hj hnetwork howner := by
    have hold : ∀ (k : Nat) (e : String × Network), keys[k]? = some e →
        ∃ q, owners[k]? = some q := by
      intro k e hk
      have hlt := (List.getElem?_eq_some_iff.mp hk).1
      rw [← h.owned] at hlt
      exact ⟨owners[k], List.getElem?_eq_getElem hlt⟩
    have hnew : (owners ++ [p])[keys.length]? = some p := by
      rw [← h.owned, List.getElem?_concat_length]
    rcases get_concat hi with hi' | ⟨rfl, rfl⟩ <;> rcases get_concat hj with hj' | ⟨rfl, rfl⟩
    · obtain ⟨q, hq⟩ := hold i old hi'
      obtain ⟨q', hq'⟩ := hold j old' hj'
      rw [get_append_of_get hq, get_append_of_get hq'] at howner
      exact h.single i j old old' hi' hj' hnetwork (by rw [hq, hq', howner])
    · obtain ⟨q, hq⟩ := hold i old hi'
      rw [get_append_of_get hq, hnew] at howner
      exact absurd (hq.trans howner) (hother i old hi' hnetwork)
    · obtain ⟨q, hq⟩ := hold j old' hj'
      rw [hnew, get_append_of_get hq] at howner
      exact absurd (hq.trans howner.symm) (hother j old' hj' hnetwork.symm)
    · rfl

/-- The nid is that of the entry of the person who asked. -/
def OwnEntry (person : List F → Person) (keys : List (String × Network))
    (owners : List Person) (req : VerifyRequest F) (nid : String) : Prop :=
  ∃ (i : Nat) (descriptor : List F), req.descriptor = some descriptor ∧
    keys[i]? = some (nid, req.network) ∧ owners[i]? = some (person descriptor)

/-- A handler that has taken this slot and has not attested yet. -/
def savingSlot (slot : Slot) : Option (VerifyFrame F) → Bool
  | some (.saving req accountId nid _) =>
    decide ((⟨accountId, nid, req.network⟩ : Slot) = slot)
  | _ => false

/-- `1` for a slot that a pending use holds. -/
def heldCount (uses : JsMap Hex FaceUse) (slot : Slot) : Nat :=
  match uses.get? slot.accountId with
  | some use => if slotOf (slot.accountId, use) = slot then 1 else 0
  | none => 0

/-- What the relay's counters, held slots and handlers say of the slots that are taken. -/
structure Book (person : List F → Person) (cfg : RelayConfig F) (s : Relay F)
    (slots : Multiset Slot) (owners : List Person)
    (attested : List (VerifyRequest F × Hex × String)) : Prop where
  faces : Faces (s.faceDescriptorDB.map faceKey) owners
  counts : ∀ entry ∈ s.faceDescriptorDB,
    entry.count = slots.countP fun slot => slot.IsOf (faceKey entry)
  bounded : ∀ entry ∈ s.faceDescriptorDB, entry.count ≤ cfg.FACE_MAX entry.network
  known : ∀ slot ∈ slots, slot.nid ∈ (s.faceDescriptorDB.map faceKey).map Prod.fst
  hashing : ∀ req accountId descriptor,
    some (.hashing req accountId descriptor) ∈ s.handlers → req.descriptor = some descriptor
  saving : ∀ req accountId nid faceCount,
    some (.saving req accountId nid faceCount) ∈ s.handlers →
    OwnEntry person (s.faceDescriptorDB.map faceKey) owners req nid
  covered : ∀ slot, s.handlers.countP (savingSlot slot) + heldCount s.pendingFaceUses slot ≤
    slots.count slot
  own : ∀ a ∈ attested,
    OwnEntry person (s.faceDescriptorDB.map faceKey) owners a.1 a.2.2
  opened : ∀ a ∈ attested, Opened s a.2.1 →
    (⟨a.2.1, a.2.2, a.1.network⟩ : Slot) ∈ slots

variable {person : List F → Person} {cfg : RelayConfig F} {s s' : Relay F}
  {slots : Multiset Slot} {owners : List Person}
  {attested : List (VerifyRequest F × Hex × String)}

section

variable (h : Book person cfg s slots owners attested)
include h

theorem Book.congr (hfaces : s'.faceDescriptorDB = s.faceDescriptorDB)
    (huses : s'.pendingFaceUses = s.pendingFaceUses) (hhandlers : s'.handlers = s.handlers)
    (harchive : s'.engineBlockStore = s.engineBlockStore) :
    Book person cfg s' slots owners attested where
  faces := by rw [hfaces]; exact h.faces
  counts := by rw [hfaces]; exact h.counts
  bounded := by rw [hfaces]; exact h.bounded
  known := by rw [hfaces]; exact h.known
  hashing := by rw [hhandlers]; exact h.hashing
  saving := by rw [hhandlers, hfaces]; exact h.saving
  covered := by rw [hhandlers, huses]; exact h.covered
  own := by rw [hfaces]; exact h.own
  opened a ha hopen := h.opened a ha ((opened_of_store_eq harchive _).mp hopen)

theorem Book.hash {req : VerifyRequest F}
    {accountId : Hex} {descriptor : List F} (hdescriptor : req.descriptor = some descriptor) :
    Book person cfg { s with handlers := s.handlers ++ [some (.hashing req accountId descriptor)] }
      slots owners attested where
  faces := h.faces
  counts := h.counts
  bounded := h.bounded
  known := h.known
  hashing req' accountId' descriptor' hmem := by
    rcases List.mem_append.mp hmem with hmem | hmem
    · exact h.hashing req' accountId' descriptor' hmem
    · cases List.mem_singleton.mp hmem
      exact hdescriptor
  saving req' accountId' nid faceCount hmem := by
    rcases List.mem_append.mp hmem with hmem | hmem
    · exact h.saving req' accountId' nid faceCount hmem
    · cases List.mem_singleton.mp hmem
  covered slot := by
    show (s.handlers ++ _).countP _ + _ ≤ _
    rw [List.countP_append]
    exact h.covered slot
  own := h.own
  opened := h.opened

theorem Book.drop {i : Nat}
    {frame : VerifyFrame F} (hframe : s.handlers[i]? = some (some frame)) :
    Book person cfg { s with handlers := s.handlers.set i none } slots owners attested where
  faces := h.faces
  counts := h.counts
  bounded := h.bounded
  known := h.known
  hashing req accountId descriptor hmem := by
    rcases List.mem_or_eq_of_mem_set hmem with hmem | hmem
    · exact h.hashing req accountId descriptor hmem
    · cases hmem
  saving req accountId nid faceCount hmem := by
    rcases List.mem_or_eq_of_mem_set hmem with hmem | hmem
    · exact h.saving req accountId nid faceCount hmem
    · cases hmem
  covered slot := by
    have hset := countP_set_of_get hframe (savingSlot slot) none
    have hcovered := h.covered slot
    simp only [savingSlot, Bool.false_eq_true, if_false, Nat.add_zero] at hset
    show (s.handlers.set i none).countP (savingSlot slot) + heldCount s.pendingFaceUses slot ≤ _
    omega
  own := h.own
  opened := h.opened

/-- A handler attests: its slot is held by the pending use from now on. -/
theorem Book.attest {i : Nat}
    {req : VerifyRequest F} {accountId : Hex} {nid : String} {faceCount : Nat}
    (hframe : s.handlers[i]? = some (some (.saving req accountId nid faceCount))) (now : Int) :
    Book person cfg { s.attested req accountId nid now with handlers := s.handlers.set i none }
      slots owners (attested ++ [(req, accountId, nid)]) := by
  have hmem := List.mem_of_getElem? hframe
  have hdrop := h.drop hframe
  have hcount : ∀ slot, (s.handlers.set i none).countP (savingSlot slot) +
      (if (⟨accountId, nid, req.network⟩ : Slot) = slot then 1 else 0) =
      s.handlers.countP (savingSlot slot) := by
    intro slot
    have hset := countP_set_of_get hframe (savingSlot slot) none
    simpa only [savingSlot, Bool.false_eq_true, if_false, Nat.add_zero, decide_eq_true_eq]
      using hset
  refine ⟨h.faces, h.counts, h.bounded, h.known, hdrop.hashing, hdrop.saving, ?_, ?_, ?_⟩
  · intro slot
    have hcovered := h.covered slot
    have hsaving := hcount slot
    show (s.handlers.set i none).countP (savingSlot slot) +
      heldCount (s.pendingFaceUses.set accountId ⟨nid, req.username, now, req.network⟩) slot ≤
        slots.count slot
    have hheld : heldCount
        (s.pendingFaceUses.set accountId ⟨nid, req.username, now, req.network⟩) slot ≤
        heldCount s.pendingFaceUses slot +
          if (⟨accountId, nid, req.network⟩ : Slot) = slot then 1 else 0 := by
      unfold heldCount
      rw [JsMap.get?_set]
      by_cases hsame : accountId = slot.accountId
      · rw [if_pos hsame, ← hsame]
        exact Nat.le_add_left _ _
      · rw [if_neg hsame]
        exact Nat.le_add_right _ _
    omega
  · intro a ha
    rcases List.mem_append.mp ha with ha | ha
    · exact h.own a ha
    · rw [List.mem_singleton.mp ha]
      exact h.saving req accountId nid faceCount hmem
  · intro a ha hopen
    rcases List.mem_append.mp ha with ha | ha
    · exact h.opened a ha hopen
    · rw [List.mem_singleton.mp ha]
      have hcovered := h.covered ⟨accountId, nid, req.network⟩
      have hsaving := hcount ⟨accountId, nid, req.network⟩
      rw [if_pos rfl] at hsaving
      have hpos : 0 < slots.count ⟨accountId, nid, req.network⟩ := by omega
      exact Multiset.count_pos.mp hpos

/-- A block arrives: an account that it opens has its slots. -/
theorem Book.archive {P : Primitives F} (block : Block F) (network : Network)
    (hspares : Opens P s block → ∀ a ∈ attested, a.2.1 = block.accountId →
      (⟨a.2.1, a.2.2, a.1.network⟩ : Slot) ∈ slots) :
    Book person cfg (archiveEngineBlock P s block network) slots owners attested := by
  have huses : (archiveEngineBlock P s block network).pendingFaceUses = s.pendingFaceUses ∨
      (archiveEngineBlock P s block network).pendingFaceUses =
        s.pendingFaceUses.delete block.accountId := by
    unfold archiveEngineBlock
    split
    · exact .inl rfl
    · dsimp only
      split
      · exact .inr rfl
      · exact .inl rfl
  have hheld : ∀ slot, heldCount (archiveEngineBlock P s block network).pendingFaceUses slot ≤
      heldCount s.pendingFaceUses slot := by
    intro slot
    rcases huses with huses | huses <;> rw [huses]
    unfold heldCount
    rw [JsMap.get?_delete]
    by_cases hsame : block.accountId = slot.accountId
    · rw [if_pos hsame]
      exact Nat.zero_le _
    · rw [if_neg hsame]
  have hsame : (archiveEngineBlock P s block network).faceDescriptorDB = s.faceDescriptorDB ∧
      (archiveEngineBlock P s block network).handlers = s.handlers := by
    unfold archiveEngineBlock
    split <;> exact ⟨rfl, rfl⟩
  obtain ⟨hfaces, hhandlers⟩ := hsame
  refine ⟨?_, ?_, ?_, ?_, ?_, ?_, ?_, ?_, ?_⟩
  · rw [hfaces]; exact h.faces
  · rw [hfaces]; exact h.counts
  · rw [hfaces]; exact h.bounded
  · rw [hfaces]; exact h.known
  · rw [hhandlers]; exact h.hashing
  · rw [hhandlers, hfaces]; exact h.saving
  · intro slot
    rw [hhandlers]
    have hcovered := h.covered slot
    have hless := hheld slot
    omega
  · rw [hfaces]; exact h.own
  · intro a ha hopen
    rcases (opened_archive block network a.2.1).mp hopen with hopen | ⟨hopens, haccount⟩
    · exact h.opened a ha hopen
    · exact hspares hopens a ha haccount.symm

end

theorem nodup_staleSlots (s : Relay F) (now : Int) :
    ((staleUses now s.pendingFaceUses.entries).map slotOf).Nodup := by
  have haccounts : (((staleUses now s.pendingFaceUses.entries).map slotOf).map
      Slot.accountId).Nodup := by
    rw [List.map_map]
    exact s.pendingFaceUses.nodup.sublist (List.filter_sublist.map _)
  exact haccounts.of_map _

theorem count_stale_add_heldCount (s : Relay F) (now : Int) (slot : Slot) :
    (Multiset.ofList ((staleUses now s.pendingFaceUses.entries).map slotOf)).count slot +
      heldCount (s.releaseStaleFaceUses now).pendingFaceUses slot ≤
    heldCount s.pendingFaceUses slot := by
  have hone := (List.nodup_iff_count_le_one.mp (nodup_staleSlots s now)) slot
  rw [Multiset.coe_count]
  by_cases hmem : slot ∈ (staleUses now s.pendingFaceUses.entries).map slotOf
  · obtain ⟨entry, hentry, rfl⟩ := List.mem_map.mp hmem
    obtain ⟨hget, hstale⟩ := mem_staleUses.mp hentry
    have hbefore : heldCount s.pendingFaceUses (slotOf entry) = 1 := by
      unfold heldCount
      rw [show (slotOf entry).accountId = entry.1 from rfl, hget]
      exact if_pos rfl
    have hafter : heldCount (s.releaseStaleFaceUses now).pendingFaceUses (slotOf entry) = 0 := by
      unfold heldCount
      cases hkept : (s.releaseStaleFaceUses now).pendingFaceUses.get?
          (slotOf entry).accountId with
      | none => rfl
      | some use =>
        obtain ⟨huse, hfresh⟩ := get?_pendingFaceUses_releaseStale.mp hkept
        rw [show (slotOf entry).accountId = entry.1 from rfl, hget] at huse
        rw [← Option.some.inj huse, hstale] at hfresh
        cases hfresh
    omega
  · rw [List.count_eq_zero_of_not_mem hmem, Nat.zero_add]
    unfold heldCount
    cases hkept : (s.releaseStaleFaceUses now).pendingFaceUses.get? slot.accountId with
    | none => exact Nat.zero_le _
    | some use =>
      rw [(get?_pendingFaceUses_releaseStale.mp hkept).1]

/-- The timer. -/
theorem Book.release (h : Book person cfg s slots owners attested) (now : Int)
    (hspares : ∀ accountId use, s.pendingFaceUses.get? accountId = some use →
      stale now use = true → Opened s accountId → 2 ≤ slots.count (slotOf (accountId, use))) :
    Book person cfg (s.releaseStaleFaceUses now)
      (slots - Multiset.ofList ((staleUses now s.pendingFaceUses.entries).map slotOf)) owners
      attested := by
  have hbalance := count_stale_add_heldCount s now
  have hle : Multiset.ofList ((staleUses now s.pendingFaceUses.entries).map slotOf) ≤ slots := by
    rw [Multiset.le_iff_count]
    intro slot
    have hcovered := h.covered slot
    have hstale := hbalance slot
    omega
  have hfaces : (s.releaseStaleFaceUses now).faceDescriptorDB = s.faceDescriptorDB.map
      (lessSlots ((staleUses now s.pendingFaceUses.entries).map slotOf)) := by
    rw [releaseStaleFaceUses_eq]
    exact foldl_releaseSlot h.faces.nids _
  have hkeys : (s.releaseStaleFaceUses now).faceDescriptorDB.map faceKey =
      s.faceDescriptorDB.map faceKey := by
    rw [hfaces, map_faceKey_lessSlots]
  have hhandlers : (s.releaseStaleFaceUses now).handlers = s.handlers := by
    rw [releaseStaleFaceUses_eq]
  have harchive : (s.releaseStaleFaceUses now).engineBlockStore = s.engineBlockStore := by
    rw [releaseStaleFaceUses_eq]
  refine ⟨?_, ?_, ?_, ?_, ?_, ?_, ?_, ?_, ?_⟩
  · rw [hkeys]; exact h.faces
  · intro entry' hentry'
    rw [hfaces] at hentry'
    obtain ⟨entry, hentry, rfl⟩ := List.mem_map.mp hentry'
    rw [Multiset.countP_sub hle, Multiset.coe_countP]
    show entry.count - _ = _
    rw [h.counts entry hentry]
    rfl
  · intro entry' hentry'
    rw [hfaces] at hentry'
    obtain ⟨entry, hentry, rfl⟩ := List.mem_map.mp hentry'
    exact (Nat.sub_le _ _).trans (h.bounded entry hentry)
  · rw [hkeys]
    intro slot hslot
    exact h.known slot (Multiset.mem_of_le (Multiset.sub_le_self _ _) hslot)
  · rw [hhandlers]; exact h.hashing
  · rw [hhandlers, hkeys]; exact h.saving
  · intro slot
    rw [hhandlers, Multiset.count_sub]
    have hcovered := h.covered slot
    have hstale := hbalance slot
    omega
  · rw [hkeys]; exact h.own
  · intro a ha hopen
    have hopen' := (opened_of_store_eq harchive a.2.1).mp hopen
    have hin := h.opened a ha hopen'
    rw [← Multiset.count_pos, Multiset.count_sub]
    have hpos := Multiset.count_pos.mpr hin
    have hstale := hbalance ⟨a.2.1, a.2.2, a.1.network⟩
    by_cases hmem : (⟨a.2.1, a.2.2, a.1.network⟩ : Slot) ∈
        (staleUses now s.pendingFaceUses.entries).map slotOf
    · obtain ⟨entry, hentry, heq⟩ := List.mem_map.mp hmem
      obtain ⟨hget, hold⟩ := mem_staleUses.mp hentry
      have haccount : entry.1 = a.2.1 := congrArg Slot.accountId heq
      have htwo := hspares entry.1 entry.2 hget hold (by rw [haccount]; exact hopen')
      replace htwo : 2 ≤ slots.count (slotOf entry) := htwo
      rw [heq] at htwo
      have hheld : heldCount s.pendingFaceUses ⟨a.2.1, a.2.2, a.1.network⟩ ≤ 1 := by
        unfold heldCount
        split
        · split <;> omega
        · omega
      omega
    · rw [Multiset.coe_count, List.count_eq_zero_of_not_mem hmem]
      omega

theorem OwnEntry.mono {keys keys' : List (String × Network)} {owners' : List Person}
    {req : VerifyRequest F} {nid : String} (h : OwnEntry person keys owners req nid)
    (hkeys : ∀ (j : Nat) (key : String × Network), keys[j]? = some key → keys'[j]? = some key)
    (howners : ∀ (j : Nat) (p : Person), owners[j]? = some p → owners'[j]? = some p) :
    OwnEntry person keys' owners' req nid := by
  obtain ⟨j, descriptor, hdescriptor, hkey, howner⟩ := h
  exact ⟨j, descriptor, hdescriptor, hkeys j _ hkey, howners j _ howner⟩

/-- A commit takes a slot and adds it to the book. -/
theorem Book.commit (h : Book person cfg s slots owners attested) {i : Nat}
    {req : VerifyRequest F} {accountId : Hex} {descriptor : List F}
    (hframe : s.handlers[i]? = some (some (.hashing req accountId descriptor)))
    {nid : String} {faceCount : Nat} {owners' : List Person}
    (hfaces : Faces (s'.faceDescriptorDB.map faceKey) owners')
    (hcounts : ∀ entry ∈ s'.faceDescriptorDB, entry.count =
      (⟨accountId, nid, req.network⟩ ::ₘ slots).countP fun slot => slot.IsOf (faceKey entry))
    (hbounded : ∀ entry ∈ s'.faceDescriptorDB, entry.count ≤ cfg.FACE_MAX entry.network)
    (hkeys : ∀ (j : Nat) (key : String × Network),
      (s.faceDescriptorDB.map faceKey)[j]? = some key →
      (s'.faceDescriptorDB.map faceKey)[j]? = some key)
    (howners : ∀ (j : Nat) (p : Person), owners[j]? = some p → owners'[j]? = some p)
    (hown : OwnEntry person (s'.faceDescriptorDB.map faceKey) owners' req nid)
    (huses : s'.pendingFaceUses = s.pendingFaceUses)
    (hhandlers : s'.handlers =
      s.handlers.set i (some (.saving req accountId nid faceCount)))
    (harchive : s'.engineBlockStore = s.engineBlockStore) :
    Book person cfg s' (⟨accountId, nid, req.network⟩ ::ₘ slots) owners' attested where
  faces := hfaces
  counts := hcounts
  bounded := hbounded
  known slot hslot := by
    rcases Multiset.mem_cons.mp hslot with rfl | hslot
    · obtain ⟨j, _, -, hkey, -⟩ := hown
      exact List.mem_map_of_mem (List.mem_of_getElem? hkey)
    · obtain ⟨key, hkey, hnid⟩ := List.mem_map.mp (h.known slot hslot)
      obtain ⟨j, hj⟩ := List.getElem?_of_mem hkey
      rw [← hnid]
      exact List.mem_map_of_mem (List.mem_of_getElem? (hkeys j key hj))
  hashing req' accountId' descriptor' hmem := by
    rw [hhandlers] at hmem
    rcases List.mem_or_eq_of_mem_set hmem with hmem | hmem
    · exact h.hashing req' accountId' descriptor' hmem
    · cases hmem
  saving req' accountId' nid' faceCount' hmem := by
    rw [hhandlers] at hmem
    rcases List.mem_or_eq_of_mem_set hmem with hmem | hmem
    · exact (h.saving req' accountId' nid' faceCount' hmem).mono hkeys howners
    · cases hmem
      exact hown
  covered slot := by
    have hset := countP_set_of_get hframe (savingSlot slot)
      (some (.saving req accountId nid faceCount))
    have hcovered := h.covered slot
    simp only [savingSlot, Bool.false_eq_true, if_false, Nat.add_zero, decide_eq_true_eq]
      at hset
    rw [hhandlers, huses, Multiset.count_cons]
    simp only [eq_comm (a := slot)]
    omega
  own a ha := (h.own a ha).mono hkeys howners
  opened a ha hopen := Multiset.mem_cons_of_mem
    (h.opened a ha ((opened_of_store_eq harchive _).mp hopen))

section Commit

variable [JsNumber F]

section

variable (h : Book person cfg s slots owners attested)
include h

theorem Book.nidFor_of_match {descriptor : List F}
    {network : Network} {j : Nat} {entry : FaceEntry F}
    (hmatch : findMatchingFace s.faceDescriptorDB descriptor network = some (j, entry))
    (uuid : String) : s.nidFor descriptor network uuid = entry.nid := by
  have hentry : entry ∈ s.faceDescriptorDB :=
    List.mem_of_getElem? (findMatchingFace_some hmatch).1
  have hnamed : entry.nid ≠ "" := h.faces.named (faceKey entry) (List.mem_map_of_mem hentry)
  rw [nidFor, hmatch]
  exact if_neg hnamed

omit [JsNumber F] in
theorem Book.mem_set {j : Nat}
    {entry replaced e : FaceEntry F} (hget : s.faceDescriptorDB[j]? = some entry)
    (he : e ∈ s.faceDescriptorDB.set j replaced) :
    e = replaced ∨ (e ∈ s.faceDescriptorDB ∧ faceKey e ≠ faceKey entry) := by
  obtain ⟨k, hk⟩ := List.getElem?_of_mem he
  rw [List.getElem?_set] at hk
  by_cases hjk : j = k
  · rw [if_pos hjk] at hk
    split at hk
    · exact .inl (Option.some.inj hk).symm
    · cases hk
  · rw [if_neg hjk] at hk
    refine .inr ⟨List.mem_of_getElem? hk, fun hsame => hjk ?_⟩
    have hjAt : (s.faceDescriptorDB.map faceKey)[j]? = some (faceKey entry) := by
      rw [List.getElem?_map, hget]
      rfl
    have hkAt : (s.faceDescriptorDB.map faceKey)[k]? = some (faceKey e) := by
      rw [List.getElem?_map, hk]
      rfl
    exact h.faces.eq_of_nid hjAt hkAt (by rw [hsame])

variable {req : VerifyRequest F}

/-- A commit on a face that is stored. -/
theorem Book.commit_stored {i : Nat} {accountId : Hex} {descriptor : List F}
    (hframe : s.handlers[i]? = some (some (.hashing req accountId descriptor)))
    {j : Nat} {entry : FaceEntry F}
    (hmatch : findMatchingFace s.faceDescriptorDB descriptor req.network = some (j, entry))
    (howner : owners[j]? = some (person descriptor))
    (hfree : s.faceCount descriptor req.network < cfg.FACE_MAX req.network) (uuid : String)
    (now : Int) :
    Book person cfg
      { s.committed req descriptor uuid now with
        handlers := s.handlers.set i (some (.saving req accountId
          (s.nidFor descriptor req.network uuid) (s.faceCount descriptor req.network))) }
      (⟨accountId, s.nidFor descriptor req.network uuid, req.network⟩ ::ₘ slots) owners
      attested := by
  obtain ⟨hget, hnetwork⟩ := findMatchingFace_some hmatch
  have hentry := List.mem_of_getElem? hget
  have hnid := h.nidFor_of_match hmatch uuid
  have hcount : s.faceCount descriptor req.network = entry.count := by
    rw [faceCount, hmatch]
    rfl
  have hslot : ∀ key : String × Network,
      (⟨accountId, s.nidFor descriptor req.network uuid, req.network⟩ : Slot).IsOf key ↔
        faceKey entry = key := by
    intro key
    rw [hnid, ← hnetwork]
    exact ⟨fun hof => Prod.ext hof.1 hof.2, fun heq => heq ▸ ⟨rfl, rfl⟩⟩
  have hkeyAt : (s.faceDescriptorDB.map faceKey)[j]? = some (faceKey entry) := by
    rw [List.getElem?_map, hget]
    rfl
  -- the entry that is replaced keeps its key
  have hdb : (s.committed req descriptor uuid now).faceDescriptorDB = s.faceDescriptorDB.set j
      { entry with
        nid := s.nidFor descriptor req.network uuid
        count := entry.count + 1
        descriptor := centroid entry.descriptor descriptor } := by
    rw [committed, hmatch]
    rfl
  have hkeys : (s.committed req descriptor uuid now).faceDescriptorDB.map faceKey =
      s.faceDescriptorDB.map faceKey := by
    obtain ⟨hj, hval⟩ := List.getElem?_eq_some_iff.mp hkeyAt
    rw [hdb, List.map_set, hnid]
    show (s.faceDescriptorDB.map faceKey).set j (faceKey entry) = _
    rw [← hval, List.set_getElem_self]
  have hentries : ∀ e ∈ (s.committed req descriptor uuid now).faceDescriptorDB,
      (faceKey e = faceKey entry ∧ e.count = entry.count + 1) ∨
        (e ∈ s.faceDescriptorDB ∧ faceKey e ≠ faceKey entry) := by
    intro e he
    rw [hdb] at he
    rcases h.mem_set hget he with rfl | hother
    · rw [hnid]
      exact .inl ⟨rfl, rfl⟩
    · exact .inr hother
  refine h.commit hframe (by rw [hkeys]; exact h.faces) ?_ ?_ ?_ (fun _ _ hp => hp) ?_ rfl rfl rfl
  · intro e he
    obtain ⟨hkey, hcountE⟩ | ⟨hin, hkey⟩ := hentries e he
    · rw [Multiset.countP_cons, if_pos ((hslot _).mpr hkey.symm), hkey, hcountE,
        h.counts entry hentry]
    · rw [Multiset.countP_cons, if_neg fun hof => hkey ((hslot _).mp hof).symm]
      exact h.counts e hin
  · intro e he
    obtain ⟨hkey, hcountE⟩ | ⟨hin, -⟩ := hentries e he
    · have hnet : e.network = req.network := (congrArg Prod.snd hkey).trans hnetwork
      rw [hcountE, hnet, ← hcount]
      exact hfree
    · exact h.bounded e hin
  · intro k key hk
    rw [hkeys]
    exact hk
  · refine ⟨j, descriptor, h.hashing req accountId descriptor (List.mem_of_getElem? hframe), ?_,
      howner⟩
    rw [hkeys, hkeyAt, hnid, ← hnetwork]
    rfl

/-- A commit on a face that is new. -/
theorem Book.commit_new {i : Nat} {accountId : Hex} {descriptor : List F}
    (hframe : s.handlers[i]? = some (some (.hashing req accountId descriptor)))
    (hmatch : findMatchingFace s.faceDescriptorDB descriptor req.network = none)
    (hstranger : ∀ (j : Nat) (entry : FaceEntry F), s.faceDescriptorDB[j]? = some entry →
      entry.network = req.network → owners[j]? ≠ some (person descriptor))
    (hfree : s.faceCount descriptor req.network < cfg.FACE_MAX req.network) {uuid : String}
    (hnamed : uuid ≠ "") (hfresh : ∀ entry ∈ s.faceDescriptorDB, entry.nid ≠ uuid) (now : Int) :
    Book person cfg
      { s.committed req descriptor uuid now with
        handlers := s.handlers.set i (some (.saving req accountId
          (s.nidFor descriptor req.network uuid) (s.faceCount descriptor req.network))) }
      (⟨accountId, s.nidFor descriptor req.network uuid, req.network⟩ ::ₘ slots)
      (owners ++ [person descriptor]) attested := by
  have hnid : s.nidFor descriptor req.network uuid = uuid := by
    rw [nidFor, hmatch]
    rfl
  have hdb : (s.committed req descriptor uuid now).faceDescriptorDB =
      s.faceDescriptorDB ++ [⟨descriptor, 1, req.network, uuid⟩] := by
    rw [committed, hmatch, hnid]
    rfl
  have hkeys : (s.committed req descriptor uuid now).faceDescriptorDB.map faceKey =
      s.faceDescriptorDB.map faceKey ++ [(uuid, req.network)] := by
    rw [hdb, List.map_append]
    rfl
  have hunknown : uuid ∉ (s.faceDescriptorDB.map faceKey).map Prod.fst := by
    intro hmem
    obtain ⟨key, hkey, heq⟩ := List.mem_map.mp hmem
    obtain ⟨entry, hentry, rfl⟩ := List.mem_map.mp hkey
    exact hfresh entry hentry heq
  have hlast : (s.faceDescriptorDB.map faceKey).length = owners.length := h.faces.owned.symm
  rw [hnid]
  refine h.commit hframe ?_ ?_ ?_ ?_ ?_ ?_ rfl rfl rfl
  · rw [hkeys]
    refine h.faces.add hnamed hunknown fun j key hj hnetwork => ?_
    rw [List.getElem?_map] at hj
    obtain ⟨entry, hentry, rfl⟩ := Option.map_eq_some_iff.mp hj
    exact hstranger j entry hentry hnetwork
  · intro e he
    rw [hdb] at he
    rcases List.mem_append.mp he with hin | hin
    · have hother : ¬ (⟨accountId, uuid, req.network⟩ : Slot).IsOf (faceKey e) :=
        fun hof => hfresh e hin hof.1.symm
      rw [Multiset.countP_cons, if_neg hother]
      exact h.counts e hin
    · -- nothing was taken of a face that was not known
      rw [List.mem_singleton.mp hin, Multiset.countP_cons, if_pos ⟨rfl, rfl⟩,
        Multiset.countP_eq_zero.mpr]
      intro slot hslot hof
      have hknown := h.known slot hslot
      rw [hof.1] at hknown
      exact hunknown hknown
  · intro e he
    rw [hdb] at he
    rcases List.mem_append.mp he with hin | hin
    · exact h.bounded e hin
    · rw [List.mem_singleton.mp hin]
      exact Nat.one_le_of_lt hfree
  · intro k key hk
    rw [hkeys]
    exact get_append_of_get hk _
  · intro k p hp
    exact get_append_of_get hp _
  · refine ⟨(s.faceDescriptorDB.map faceKey).length, descriptor,
      h.hashing req accountId descriptor (List.mem_of_getElem? hframe), ?_, ?_⟩
    · rw [hkeys, List.getElem?_concat_length]
    · rw [hlast, List.getElem?_concat_length]

theorem Book.faces_of_atMostNamed {descriptor : List F} {uuid : String} {db : List (FaceEntry F)}
    (hdb : s.AtMostNamed req descriptor uuid db) : db = s.faceDescriptorDB := by
  rcases hdb with hdb | hdb
  · exact hdb
  · rw [hdb]
    cases hmatch : findMatchingFace s.faceDescriptorDB descriptor req.network with
    | none => rfl
    | some face =>
      obtain ⟨j, entry⟩ := face
      obtain ⟨hget, -⟩ := findMatchingFace_some hmatch
      have hnid := h.nidFor_of_match hmatch uuid
      obtain ⟨hj, hval⟩ := List.getElem?_eq_some_iff.mp hget
      rw [hnid]
      show s.faceDescriptorDB.set j entry = _
      rw [← hval, List.set_getElem_self]

end

end Commit

end Book

/-! ## Runs -/

section Runs

variable [JsNumber F] {Person : Type} {person : List F → Person} {P : Primitives F}
  {cfg : RelayConfig F}

/-- The book of a relay with its past. -/
def Kept (person : List F → Person) (cfg : RelayConfig F) (w : History F) : Prop :=
  Book person cfg w.relay (takenSlots w.events) (owners person w.events)
    (w.events.filterMap Event.attestation?)

theorem kept_new : Kept person cfg (History.new : History F) where
  faces := ⟨List.nodup_nil, fun _ h => (List.not_mem_nil h).elim, rfl, fun _ _ _ _ h => by
    cases h⟩
  counts _ h := (List.not_mem_nil h).elim
  bounded _ h := (List.not_mem_nil h).elim
  known _ h := (Multiset.notMem_zero _ h).elim
  hashing _ _ _ h := (List.not_mem_nil h).elim
  saving _ _ _ _ h := (List.not_mem_nil h).elim
  covered _ := Nat.le_refl _
  own _ h := (List.not_mem_nil h).elim
  opened _ h := (List.not_mem_nil h).elim

variable {w : History F}

theorem kept_step {input : Input F} {s' : Relay F} {answer : Option (RelayAnswer F)}
    (hr : w.relay.handle P cfg input = (s', answer))
    (h : Book person cfg s' (slotsAfter (takenSlots w.events) ⟨w.relay, input, answer⟩)
      (ownersAfter person (owners person w.events) ⟨w.relay, input, answer⟩)
      (w.events.filterMap Event.attestation? ++
        (Event.mk w.relay input answer).attestation?.toList)) :
    Kept person cfg (w.step P cfg input) := by
  have hlast : [Event.mk w.relay input answer].filterMap Event.attestation? =
      (Event.mk w.relay input answer).attestation?.toList := by
    cases hattests : (Event.mk w.relay input answer).attestation? with
    | none => exact List.filterMap_cons_none hattests
    | some a => exact List.filterMap_cons_some hattests
  unfold Kept takenSlots owners History.step
  rw [hr, List.foldl_append, List.foldl_append, List.filterMap_append, hlast]
  exact h

theorem kept_step_of_turn_none {input : Input F}
    (hturn : ∀ answer, (Event.mk w.relay input answer).turn = none)
    (h : Book person cfg (w.relay.handle P cfg input).1
      (slotsAfter (takenSlots w.events) ⟨w.relay, input, (w.relay.handle P cfg input).2⟩)
      (owners person w.events) (w.events.filterMap Event.attestation?)) :
    Kept person cfg (w.step P cfg input) := by
  have hr : w.relay.handle P cfg input =
    ((w.relay.handle P cfg input).1, (w.relay.handle P cfg input).2) := rfl
  refine kept_step hr ?_
  have hattests : (Event.mk w.relay input (w.relay.handle P cfg input).2).attestation? =
      none := by
    unfold Event.attestation?
    rw [hturn]
    split
    · next hnone => cases hnone
    · rfl
  have howners : ownersAfter person (owners person w.events)
      ⟨w.relay, input, (w.relay.handle P cfg input).2⟩ = owners person w.events := by
    unfold ownersAfter
    rw [hturn]
  rw [hattests, howners, Option.toList_none, List.append_nil]
  exact h

section

variable (h : Kept person cfg w)
include h

/-- The turn of a verify handler. -/
theorem Kept.resume {i : Nat} {uuid : String} {now : Int}
    (hpromised : Promised person w (.resume i uuid now)) :
    Kept person cfg (w.step P cfg (.resume i uuid now)) := by
  obtain ⟨hnone, hr⟩ | ⟨req, accountId, descriptor, hframe,
      ⟨db, status, message, hdb, hr⟩ | ⟨hfree, -, hr⟩⟩ |
      ⟨req, accountId, nid, faceCount, hframe, hr | ⟨nullifier, attestation, hr⟩⟩ :=
    resume_cases P cfg w.relay i uuid now
  · refine kept_step hr ?_
    simp only [slotsAfter, ownersAfter, Event.attestation?, Event.turn, hnone,
      Option.toList_none, List.append_nil]
    exact h
  · refine kept_step hr ?_
    simp only [slotsAfter, ownersAfter, Event.attestation?, Event.turn, hframe,
      Option.join_some, Option.toList_none, List.append_nil]
    rw [h.faces_of_atMostNamed hdb]
    exact h.drop hframe
  · refine kept_step hr ?_
    simp only [slotsAfter, ownersAfter, Event.attestation?, Event.turn, hframe,
      Option.join_some, Option.toList_none, List.append_nil]
    obtain ⟨hrecognises, hnamed, hfresh⟩ := hpromised req accountId descriptor hframe
    unfold Recognises at hrecognises
    split at hrecognises
    · next j entry hmatch =>
        rw [hmatch]
        exact h.commit_stored hframe hmatch hrecognises hfree uuid now
    · next hmatch =>
        rw [hmatch]
        exact h.commit_new hframe hmatch hrecognises hfree hnamed hfresh now
  · refine kept_step hr ?_
    simp only [slotsAfter, ownersAfter, Event.attestation?, Event.turn, hframe,
      Option.join_some, Option.toList_none, List.append_nil]
    exact h.drop hframe
  · refine kept_step hr ?_
    simp only [slotsAfter, ownersAfter, Event.attestation?, Event.turn, hframe,
      Option.join_some, Option.toList_some]
    exact h.attest hframe now

theorem Kept.frame {input : Input F}
    (hsettles : ¬ Settles input) (hverify : ∀ req now, input ≠ .verify req now) :
    Kept person cfg (w.step P cfg input) := by
  obtain ⟨huses, -, hfaces, harchive⟩ :
      (w.relay.handle P cfg input).1.pendingFaceUses = w.relay.pendingFaceUses ∧
      (w.relay.handle P cfg input).1.usernameRegistry = w.relay.usernameRegistry ∧
      (w.relay.handle P cfg input).1.faceDescriptorDB = w.relay.faceDescriptorDB ∧
      (w.relay.handle P cfg input).1.engineBlockStore = w.relay.engineBlockStore :=
    handle_frame hsettles
  have hhandlers : (w.relay.handle P cfg input).1.handlers = w.relay.handlers :=
    handle_handlers hverify fun i uuid now heq => hsettles (heq ▸ trivial)
  have hslots : slotsAfter (takenSlots w.events)
      ⟨w.relay, input, (w.relay.handle P cfg input).2⟩ = takenSlots w.events := by
    cases input with
    | resume | archive | releaseStale => exact absurd trivial hsettles
    | _ => rfl
  refine kept_step_of_turn_none (fun _ => ?_) ?_
  · cases input with
    | resume => exact absurd trivial hsettles
    | _ => rfl
  · rw [hslots]
    exact h.congr hfaces huses hhandlers harchive

theorem Kept.step {input : Input F}
    (hpromised : Promised person w input) (hspares : SparesSlots P w input) :
    Kept person cfg (w.step P cfg input) := by
  cases input with
  | resume i uuid now => exact h.resume hpromised
  | archive block network =>
    refine kept_step_of_turn_none (fun _ => rfl) (h.archive block network ?_)
    intro hopens a ha haccount
    obtain ⟨e, he, hattests⟩ := List.mem_filterMap.mp ha
    obtain ⟨req, accountId, nid⟩ := a
    rw [show accountId = block.accountId from haccount] at hattests ⊢
    exact hspares hopens e he req nid hattests
  | releaseStale now =>
    exact kept_step_of_turn_none (fun _ => rfl) (h.release now hspares)
  | verify req now =>
    refine kept_step_of_turn_none (fun _ => rfl) ?_
    show Book person cfg (w.relay.verify req now).1 _ _ _
    obtain ⟨_, hv⟩ | ⟨_, hv⟩ | ⟨accountId, session, descriptor, -, -, -, hdescriptor, -, hv⟩ :=
      verify_cases w.relay req now <;> rw [hv]
    · exact h
    · exact h.congr rfl rfl rfl rfl
    · exact h.hash hdescriptor
  | challenge | recoveryChallenge | storeShare | releaseShare =>
    refine h.frame (fun hsettles => hsettles) fun _ _ heq => ?_
    cases heq

theorem Kept.slot_of_opened {p : Person}
    {network : Network} {accountId : Hex} (hattested : AttestedFor person w p network accountId)
    (hopen : Opened w.relay accountId) :
    ∃ (i : Nat) (nid : String), (⟨accountId, nid, network⟩ : Slot) ∈ takenSlots w.events ∧
      (w.relay.faceDescriptorDB.map faceKey)[i]? = some (nid, network) ∧
      (owners person w.events)[i]? = some p := by
  obtain ⟨e, he, req, nid, descriptor, hattests, hnetwork, hdescriptor, hperson⟩ := hattested
  have ha := List.mem_filterMap.mpr ⟨e, he, hattests⟩
  obtain ⟨i, descriptor', hdescriptor', hkey, howner⟩ := h.own _ ha
  have hsame : descriptor' = descriptor := Option.some.inj (hdescriptor'.symm.trans hdescriptor)
  refine ⟨i, nid, ?_, ?_, ?_⟩
  · rw [← hnetwork]
    exact h.opened _ ha hopen
  · rw [← hnetwork]
    exact hkey
  · rw [← hperson, ← hsame]
    exact howner

theorem Kept.faceBound : FaceBound person cfg w := by
  intro p network accounts hnodup hall
  cases accounts with
  | nil => exact Nat.zero_le _
  | cons first rest =>
    obtain ⟨i, nid, -, hkey, howner⟩ := h.slot_of_opened
      (hall first List.mem_cons_self).1 (hall first List.mem_cons_self).2
    have hslots : ∀ accountId ∈ first :: rest,
        (⟨accountId, nid, network⟩ : Slot) ∈ takenSlots w.events := by
      intro accountId hmem
      obtain ⟨j, nid', hin, hkey', howner'⟩ := h.slot_of_opened (hall _ hmem).1 (hall _ hmem).2
      have hij := h.faces.single i j _ _ hkey hkey' rfl (howner.trans howner'.symm)
      rw [hij, hkey'] at hkey
      have hnid : nid' = nid := congrArg Prod.fst (Option.some.inj hkey)
      rw [hnid] at hin
      exact hin
    obtain ⟨entry, hget, heq⟩ : ∃ entry, w.relay.faceDescriptorDB[i]? = some entry ∧
        faceKey entry = (nid, network) := by
      rw [List.getElem?_map] at hkey
      exact Option.map_eq_some_iff.mp hkey
    have hentry := List.mem_of_getElem? hget
    have htaken : Multiset.ofList ((first :: rest).map fun accountId =>
        (⟨accountId, nid, network⟩ : Slot)) ≤ takenSlots w.events := by
      refine (Multiset.le_iff_subset ?_).mpr ?_
      · exact hnodup.map fun a b hab => congrArg Slot.accountId hab
      · intro slot hslot
        obtain ⟨accountId, hmem, rfl⟩ := List.mem_map.mp hslot
        exact hslots accountId hmem
    calc (first :: rest).length
        = (Multiset.ofList ((first :: rest).map fun accountId =>
            (⟨accountId, nid, network⟩ : Slot))).countP
              fun slot => slot.IsOf (faceKey entry) := by
          rw [Multiset.coe_countP, List.countP_map, heq, List.countP_eq_length.mpr]
          intro accountId _
          exact decide_eq_true ⟨rfl, rfl⟩
      _ ≤ (takenSlots w.events).countP fun slot => slot.IsOf (faceKey entry) :=
          Multiset.countP_le_of_le _ htaken
      _ = entry.count := (h.counts entry hentry).symm
      _ ≤ cfg.FACE_MAX entry.network := h.bounded entry hentry
      _ = cfg.FACE_MAX network := by rw [show entry.network = network from congrArg Prod.snd heq]

end

/-- While opened accounts keep their slots, no person has more of them than its faces may. -/
theorem face_bound (person : List F → Person) (P : Primitives F) (cfg : RelayConfig F)
    (inputs : List (Input F))
    (hpromised : Run.StepsMeet (History.step P cfg) (Promised person) History.new inputs)
    (hspares : Run.StepsMeet (History.step P cfg) (SparesSlots P) History.new inputs) :
    Run.Always (History.step P cfg) (FaceBound person cfg) History.new inputs := by
  have hboth : Run.StepsMeet (History.step P cfg)
      (fun w input => Promised person w input ∧ SparesSlots P w input) History.new inputs :=
    hpromised.and hspares
  exact Run.always_of_invariant (I := Kept person cfg) (fun _ _ hw h => hw.step h.1 h.2)
    (fun _ hw => hw.faceBound) kept_new hboth

end Runs

section Samples

open NeuronWeb.Sample (relayConfig face enrol openBlock)

/-- Whether a face is the first sample face. -/
def isFirstFace (descriptor : List Rat) : Bool :=
  JsNumber.lt (dist descriptor (face 0)) FACE_MATCH_THRESHOLD

/-- An account that is attested and opened, and the same human's request for a second one,
which mainnet refuses. -/
def oneAccount : List (Input Rat) :=
  [.challenge "127.0.0.1" .mainnet "c" true 0, .verify (enrol .mainnet "02a" "" "c" 0) 1,
    .resume 0 "n" 2, .resume 0 "" 3, .archive (openBlock "02a") .mainnet, .releaseStale 400000,
    .challenge "127.0.0.1" .mainnet "d" true 400001,
    .verify (enrol .mainnet "02b" "" "d" 0) 400002, .resume 1 "m" 400003]

/-- Whether the turn of a handler is as promised; a face without an entry is the first of its
network here. -/
def keepsPromise (w : History Rat) (i : Nat) (uuid : String) : Bool :=
  match w.relay.handlers[i]? with
  | some (some (.hashing req _ descriptor)) =>
    (match findMatchingFace w.relay.faceDescriptorDB descriptor req.network with
      | some (j, _) =>
        decide ((owners isFirstFace w.events)[j]? = some (isFirstFace descriptor))
      | none => w.relay.faceDescriptorDB.all fun entry => entry.network ≠ req.network) &&
    decide (uuid ≠ "") &&
    w.relay.faceDescriptorDB.all fun entry => entry.nid ≠ uuid
  | _ => true

theorem promised_of_keepsPromise {w : History Rat} {i : Nat} {uuid : String}
    (h : keepsPromise w i uuid = true) (now : Int) :
    Promised isFirstFace w (.resume i uuid now) := by
  intro req accountId descriptor hframe
  simp only [keepsPromise, hframe, Bool.and_eq_true, decide_eq_true_eq, List.all_eq_true] at h
  obtain ⟨⟨hmatch, hnamed⟩, hfresh⟩ := h
  refine ⟨?_, hnamed, hfresh⟩
  unfold Recognises
  split at hmatch
  · next j entry hfound =>
      rw [hfound]
      exact decide_eq_true_eq.mp hmatch
  · next hnone =>
      rw [hnone]
      intro j entry hentry hnetwork
      have hother := List.all_eq_true.mp hmatch entry (List.mem_of_getElem? hentry)
      exact absurd hnetwork (decide_eq_true_eq.mp hother)

/-- Whether an account has all its slots when a block of it arrives. -/
def slotsTaken (w : History Rat) (accountId : Hex) : Bool :=
  w.events.all fun e => e.attestation?.all fun a =>
    decide (a.2.1 = accountId → (⟨accountId, a.2.2, a.1.network⟩ : Slot) ∈ takenSlots w.events)

theorem sparesSlots_of_slotsTaken {w : History Rat} {block : Block Rat}
    (h : slotsTaken w block.accountId = true) (P : Primitives Rat) (network : Network) :
    SparesSlots P w (.archive block network) := by
  intro _ e he req nid hattests
  have hone := List.all_eq_true.mp h e he
  rw [hattests] at hone
  exact decide_eq_true_eq.mp hone rfl

theorem sparesSlots_of_noneStale {w : History Rat} {now : Int}
    (h : staleUses now w.relay.pendingFaceUses.entries = []) (P : Primitives Rat) :
    SparesSlots P w (.releaseStale now) := by
  intro accountId use huse hstale
  have hmem : (accountId, use) ∈ staleUses now w.relay.pendingFaceUses.entries :=
    mem_staleUses.mpr ⟨huse, hstale⟩
  rw [h] at hmem
  exact (List.not_mem_nil hmem).elim

theorem face_bound_oneAccount :
    Run.Always (History.step Sample.primitives relayConfig) (FaceBound isFirstFace relayConfig)
      History.new oneAccount := by
  apply face_bound
  · exact ⟨trivial, trivial, promised_of_keepsPromise (by decide +kernel) _,
      promised_of_keepsPromise (by decide +kernel) _, trivial, trivial, trivial, trivial,
      promised_of_keepsPromise (by decide +kernel) _, trivial⟩
  · refine ⟨trivial, trivial, trivial, trivial, sparesSlots_of_slotsTaken (by decide +kernel) _ _,
      ?_, trivial, trivial, trivial, trivial⟩
    exact sparesSlots_of_noneStale (by decide +kernel) _

/-- An account whose open block is on its way for over five minutes, and a second one that is
attested in the meantime. -/
def lateOpen : List (Input Rat) :=
  [.challenge "127.0.0.1" .mainnet "c" true 0, .verify (enrol .mainnet "02a" "" "c" 0) 1,
    .resume 0 "n" 2, .resume 0 "" 3, .releaseStale 400000,
    .archive (openBlock "02a") .mainnet,
    .challenge "127.0.0.1" .mainnet "d" true 400001,
    .verify (enrol .mainnet "02b" "" "d" 0) 400002, .resume 1 "m" 400003, .resume 1 "" 400004,
    .archive (openBlock "02b") .mainnet]

/-- Whether the account is attested for the first face on mainnet and opened. -/
def showsOpened (w : History Rat) (accountId : Hex) : Bool :=
  (w.events.any fun e => e.attestation?.any fun a =>
    decide (a.2.1 = accountId ∧ a.1.network = .mainnet ∧ a.1.descriptor = some (face 0))) &&
  w.relay.engineBlockStore.entries.any fun row =>
    decide (row.2.accountId = accountId ∧ row.2.type = .open)

theorem opened_of_shows {w : History Rat} {accountId : Hex}
    (h : showsOpened w accountId = true) :
    AttestedFor isFirstFace w (isFirstFace (face 0)) .mainnet accountId ∧
      Opened w.relay accountId := by
  simp only [showsOpened, Bool.and_eq_true, List.any_eq_true, decide_eq_true_eq] at h
  obtain ⟨⟨e, he, hattests⟩, ⟨hash, row⟩, hrow, haccount, htype⟩ := h
  obtain ⟨⟨req, accountId', nid⟩, hattestation, hsame⟩ := (Option.any_eq_true _ _).mp hattests
  simp only [decide_eq_true_eq] at hsame
  obtain ⟨rfl, hnetwork, hdescriptor⟩ := hsame
  exact ⟨⟨e, he, req, nid, face 0, hattestation, hnetwork, hdescriptor, rfl⟩, hash, row,
    (JsMap.get?_eq_some_iff _ _ _).mpr hrow, haccount, htype⟩

/-- The first account opens after its slot was given back: one human has two on mainnet. -/
theorem late_open_exceeds :
    Run.StepsMeet (History.step Sample.primitives relayConfig) (Promised isFirstFace)
      History.new lateOpen ∧
    ¬ FaceBound isFirstFace relayConfig
      (Run.final (History.step Sample.primitives relayConfig) History.new lateOpen) := by
  constructor
  · exact ⟨trivial, trivial, promised_of_keepsPromise (by decide +kernel) _,
      promised_of_keepsPromise (by decide +kernel) _, trivial, trivial, trivial, trivial,
      promised_of_keepsPromise (by decide +kernel) _,
      promised_of_keepsPromise (by decide +kernel) _, trivial, trivial⟩
  · intro h
    have hboth : ∀ accountId ∈ ["02a", "02b"], showsOpened (Run.final
        (History.step Sample.primitives relayConfig) History.new lateOpen) accountId = true := by
      decide +kernel
    have htwo := h (isFirstFace (face 0)) .mainnet ["02a", "02b"] (by decide)
      fun accountId hmem => opened_of_shows (hboth accountId hmem)
    exact absurd htwo (by decide)

end Samples

end NeuronWeb.Relay
