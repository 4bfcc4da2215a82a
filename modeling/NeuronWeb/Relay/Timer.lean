/-
  Relay/Timer: what `releaseStaleFaceUses` gives back.

  The timer visits the held slots once.  A held slot that is stale is dropped, the face loses
  one of its taken slots, and the username goes with it where the registry still names the
  account of this very attempt.
-/
import NeuronWeb.Relay.FaceGate

set_option autoImplicit false

namespace NeuronWeb.Relay

variable {F : Type}

/-- The hold has lasted its time. -/
def stale (now : Int) (use : FaceUse) : Bool := decide (FACE_USE_TTL_MS ≤ now - use.usedAt)

/-- The stale ones of some held slots. -/
def staleUses (now : Int) (entries : List (Hex × FaceUse)) : List (Hex × FaceUse) :=
  entries.filter fun entry => stale now entry.2

theorem releaseUse_of_fresh {now : Int} {s : Relay F} {entry : Hex × FaceUse}
    (h : stale now entry.2 = false) : releaseUse now s entry = s := by
  have hlt : now - entry.2.usedAt < FACE_USE_TTL_MS := by
    simpa [stale] using h
  unfold releaseUse
  exact if_pos hlt

/-- The names after one stale slot. -/
def releaseName (names : JsMap String UsernameClaim) (entry : Hex × FaceUse) :
    JsMap String UsernameClaim :=
  if entry.2.username ≠ "" ∧
      (names.get? entry.2.username).any (fun claim => claim.accountId = entry.1) then
    names.delete entry.2.username
  else names

theorem releaseUse_of_stale {now : Int} {s : Relay F} {entry : Hex × FaceUse}
    (h : stale now entry.2 = true) :
    releaseUse now s entry =
      { s with
        pendingFaceUses := s.pendingFaceUses.delete entry.1
        faceDescriptorDB := releaseSlot entry.2.nid entry.2.network s.faceDescriptorDB
        usernameRegistry := releaseName s.usernameRegistry entry } := by
  have hnot : ¬ now - entry.2.usedAt < FACE_USE_TTL_MS := by
    simpa [stale] using h
  unfold releaseUse
  exact if_neg hnot

theorem foldl_releaseUse (now : Int) (entries : List (Hex × FaceUse)) (s : Relay F) :
    entries.foldl (releaseUse now) s =
      { s with
        pendingFaceUses := s.pendingFaceUses.deleteAll ((staleUses now entries).map Prod.fst)
        faceDescriptorDB := (staleUses now entries).foldl
          (fun db entry => releaseSlot entry.2.nid entry.2.network db) s.faceDescriptorDB
        usernameRegistry := (staleUses now entries).foldl releaseName s.usernameRegistry } := by
  induction entries generalizing s with
  | nil => rfl
  | cons entry rest ih =>
    rw [List.foldl_cons, ih]
    cases hstale : stale now entry.2 with
    | false =>
      rw [releaseUse_of_fresh hstale]
      simp only [staleUses, List.filter_cons, hstale, Bool.false_eq_true, if_false]
    | true =>
      rw [releaseUse_of_stale hstale]
      simp only [staleUses, List.filter_cons, hstale, if_true, List.map_cons,
        List.foldl_cons, JsMap.deleteAll]

theorem releaseStaleFaceUses_eq (s : Relay F) (now : Int) :
    s.releaseStaleFaceUses now =
      { s with
        pendingFaceUses := s.pendingFaceUses.deleteAll
          ((staleUses now s.pendingFaceUses.entries).map Prod.fst)
        faceDescriptorDB := (staleUses now s.pendingFaceUses.entries).foldl
          (fun db entry => releaseSlot entry.2.nid entry.2.network db) s.faceDescriptorDB
        usernameRegistry :=
          (staleUses now s.pendingFaceUses.entries).foldl releaseName s.usernameRegistry } :=
  foldl_releaseUse now s.pendingFaceUses.entries s

theorem mem_staleUses {s : Relay F} {now : Int} {entry : Hex × FaceUse} :
    entry ∈ staleUses now s.pendingFaceUses.entries ↔
      s.pendingFaceUses.get? entry.1 = some entry.2 ∧ stale now entry.2 = true := by
  rw [staleUses, List.mem_filter, JsMap.get?_eq_some_iff]

theorem get?_pendingFaceUses_releaseStale {s : Relay F} {now : Int} {accountId : Hex}
    {use : FaceUse} :
    (s.releaseStaleFaceUses now).pendingFaceUses.get? accountId = some use ↔
      s.pendingFaceUses.get? accountId = some use ∧ stale now use = false := by
  rw [releaseStaleFaceUses_eq]
  dsimp only
  rw [JsMap.get?_deleteAll]
  constructor
  · intro h
    split at h
    · cases h
    · next hmem =>
        refine ⟨h, ?_⟩
        cases hstale : stale now use with
        | false => rfl
        | true => exact absurd (List.mem_map.mpr ⟨(accountId, use),
            mem_staleUses.mpr ⟨h, hstale⟩, rfl⟩) hmem
  · rintro ⟨h, hfresh⟩
    rw [if_neg]
    · exact h
    · intro hmem
      obtain ⟨entry, hentry, rfl⟩ := List.mem_map.mp hmem
      obtain ⟨hget, hstale⟩ := mem_staleUses.mp hentry
      rw [h] at hget
      rw [← Option.some.inj hget, hfresh] at hstale
      cases hstale

theorem get?_releaseName (names : JsMap String UsernameClaim) (entry : Hex × FaceUse)
    (u : String) (claim : UsernameClaim) :
    (releaseName names entry).get? u = some claim ↔
      names.get? u = some claim ∧
        (entry.2.username = u → u ≠ "" → claim.accountId ≠ entry.1) := by
  unfold releaseName
  split
  · next h =>
      obtain ⟨hnamed, hany⟩ := h
      rw [JsMap.get?_delete]
      constructor
      · intro hget
        split at hget
        · cases hget
        · exact ⟨hget, fun heq => absurd heq ‹_›⟩
      · rintro ⟨hget, hother⟩
        rw [if_neg]
        · exact hget
        · intro heq
          rw [heq, hget, Option.any_some, decide_eq_true_eq] at hany
          exact hother heq (by rw [← heq]; exact hnamed) hany
  · next h =>
      constructor
      · intro hget
        refine ⟨hget, ?_⟩
        rintro rfl hne haccount
        exact h ⟨hne, by rw [hget, Option.any_some, decide_eq_true haccount]⟩
      · exact fun hget => hget.1

theorem get?_foldl_releaseName (entries : List (Hex × FaceUse))
    (names : JsMap String UsernameClaim) (u : String) (claim : UsernameClaim) :
    (entries.foldl releaseName names).get? u = some claim ↔
      names.get? u = some claim ∧
        ∀ entry ∈ entries, entry.2.username = u → u ≠ "" → claim.accountId ≠ entry.1 := by
  induction entries generalizing names with
  | nil => simp
  | cons entry rest ih =>
    rw [List.foldl_cons, ih, get?_releaseName, List.forall_mem_cons, and_assoc]

theorem get?_usernameRegistry_releaseStale {s : Relay F} {now : Int} {u : String}
    {claim : UsernameClaim} :
    (s.releaseStaleFaceUses now).usernameRegistry.get? u = some claim ↔
      s.usernameRegistry.get? u = some claim ∧
        ∀ use, s.pendingFaceUses.get? claim.accountId = some use → stale now use = true →
          use.username = u → u = "" := by
  rw [releaseStaleFaceUses_eq]
  dsimp only
  rw [get?_foldl_releaseName]
  refine and_congr_right fun _ => ?_
  constructor
  · intro h use huse hstale hname
    by_contra hne
    exact h (claim.accountId, use) (mem_staleUses.mpr ⟨huse, hstale⟩) hname hne rfl
  · intro h entry hentry hname hne haccount
    obtain ⟨huse, hstale⟩ := mem_staleUses.mp hentry
    rw [← haccount] at huse
    exact hne (h entry.2 huse hstale hname)

end NeuronWeb.Relay
