/-
  Relay/NetworkFaces: the faces of one network in the face database (`relay/server.ts`).

  The database has the faces of both networks in one list, so a face is found at another place
  when the other network has stored some before it.  Whatever is done for a network is done to
  its own faces: the entries of a network change as if there were no others.
-/
import NeuronWeb.Foundation.Isolation
import NeuronWeb.Relay.FaceSlots

set_option autoImplicit false

namespace NeuronWeb.Relay

variable {F : Type}

/-- The faces of a network. -/
def facesOf (n : Network) (db : List (FaceEntry F)) : List (FaceEntry F) :=
  db.filter fun entry => entry.network = n

/-- A face with the place that it has among those of its network. -/
def placed (n : Network) (db : List (FaceEntry F)) (face : Nat × FaceEntry F) :
    Nat × FaceEntry F :=
  (rank (fun entry : FaceEntry F => decide (entry.network = n)) db face.1, face.2)

theorem facesOf_set {n : Network} {db : List (FaceEntry F)} {i : Nat} {entry entry' : FaceEntry F}
    (h : db[i]? = some entry) (hnetwork : entry.network = n) (hsame : entry'.network = n) :
    facesOf n (db.set i entry') =
      (facesOf n db).set (placed n db (i, entry)).1 entry' :=
  filter_set_of_mem h (by simpa using hnetwork) (by simpa using hsame)

theorem facesOf_set_other {n : Network} {db : List (FaceEntry F)} {i : Nat}
    {entry entry' : FaceEntry F} (h : db[i]? = some entry) (hnetwork : entry.network ≠ n)
    (hsame : entry'.network ≠ n) : facesOf n (db.set i entry') = facesOf n db :=
  filter_set_of_not_mem h (by simpa using hnetwork) (by simpa using hsame)

section Matching

variable [JsNumber F] {descriptor : List F} {n m : Network} {db : List (FaceEntry F)}

/-- The loop finds the same face among those of the network, by induction on the entries that
are left. -/
theorem closest_facesOf {rest : List (FaceEntry F)} {i : Nat}
    {best : Option ((Nat × FaceEntry F) × F)} (hrest : db.drop i = rest) :
    (closest descriptor n rest i best).map (fun b => (placed n db b.1, b.2)) =
      closest descriptor n (facesOf n rest)
        (rank (fun entry : FaceEntry F => decide (entry.network = n)) db i)
        (best.map fun b => (placed n db b.1, b.2)) := by
  induction rest generalizing i best with
  | nil => rfl
  | cons entry rest ih =>
    have hentry : db[i]? = some entry := by
      rw [← List.head?_drop, hrest]
      rfl
    have htail : db.drop (i + 1) = rest := by
      rw [← List.tail_drop, hrest]
      rfl
    have hcloser : (best.map fun b => (placed n db b.1, b.2)).all (fun b =>
        JsNumber.lt (dist descriptor entry.descriptor) b.2) =
        best.all fun b => JsNumber.lt (dist descriptor entry.descriptor) b.2 := by
      cases best <;> rfl
    have hrank := rank_succ (p := fun entry : FaceEntry F => decide (entry.network = n)) hentry
    by_cases hn : entry.network = n
    · have hfaces : facesOf n (entry :: rest) = entry :: facesOf n rest :=
        List.filter_cons_of_pos (by simpa using hn)
      rw [hfaces]
      simp only [hn, decide_true, if_true] at hrank
      unfold closest
      dsimp only
      rw [hcloser]
      split
      · rw [ih htail, hrank]
        rfl
      · rw [ih htail, hrank]
    · have hfaces : facesOf n (entry :: rest) = facesOf n rest :=
        List.filter_cons_of_neg (by simpa using hn)
      rw [hfaces]
      simp only [hn, decide_false, Bool.false_eq_true, if_false, Nat.add_zero] at hrank
      rw [closest, if_neg fun h => hn h.1, ih htail, hrank]

theorem findMatchingFace_facesOf :
    findMatchingFace (facesOf n db) descriptor n =
      (findMatchingFace db descriptor n).map (placed n db) := by
  have hclosest : (closest descriptor n db 0 none).map (fun b => (placed n db b.1, b.2)) =
      closest descriptor n (facesOf n db) 0 none := closest_facesOf (List.drop_zero)
  unfold findMatchingFace
  rw [← hclosest]
  cases closest descriptor n db 0 none <;> rfl

/-! ## What a verify request does to the faces -/

theorem nameFace_facesOf (nid : String) :
    facesOf n (nameFace db (findMatchingFace db descriptor n) nid) =
      nameFace (facesOf n db) (findMatchingFace (facesOf n db) descriptor n) nid := by
  rw [findMatchingFace_facesOf]
  cases hmatch : findMatchingFace db descriptor n with
  | none => rfl
  | some face =>
    obtain ⟨i, entry⟩ := face
    obtain ⟨hentry, hnetwork⟩ := findMatchingFace_some hmatch
    exact facesOf_set hentry hnetwork hnetwork

theorem nameFace_facesOf_other (hnm : m ≠ n) (nid : String) :
    facesOf n (nameFace db (findMatchingFace db descriptor m) nid) = facesOf n db := by
  cases hmatch : findMatchingFace db descriptor m with
  | none => rfl
  | some face =>
    obtain ⟨i, entry⟩ := face
    obtain ⟨hentry, hnetwork⟩ := findMatchingFace_some hmatch
    have hother : entry.network ≠ n := fun h => hnm (hnetwork.symm.trans h)
    exact facesOf_set_other hentry hother hother

theorem takeSlot_facesOf (nid : String) :
    facesOf n (takeSlot db (findMatchingFace db descriptor n) descriptor n nid) =
      takeSlot (facesOf n db) (findMatchingFace (facesOf n db) descriptor n) descriptor n nid := by
  rw [findMatchingFace_facesOf]
  cases hmatch : findMatchingFace db descriptor n with
  | none =>
    have hnew : facesOf n [⟨descriptor, 1, n, nid⟩] = [⟨descriptor, 1, n, nid⟩] :=
      List.filter_cons_of_pos (by simp)
    exact (List.filter_append db [⟨descriptor, 1, n, nid⟩]).trans (congrArg _ hnew)
  | some face =>
    obtain ⟨i, entry⟩ := face
    obtain ⟨hentry, hnetwork⟩ := findMatchingFace_some hmatch
    exact facesOf_set hentry hnetwork hnetwork

theorem takeSlot_facesOf_other (hnm : m ≠ n) (nid : String) :
    facesOf n (takeSlot db (findMatchingFace db descriptor m) descriptor m nid) =
      facesOf n db := by
  cases hmatch : findMatchingFace db descriptor m with
  | none =>
    have hnew : facesOf n [⟨descriptor, 1, m, nid⟩] = [] :=
      List.filter_cons_of_neg (by simpa using hnm)
    exact (List.filter_append db [⟨descriptor, 1, m, nid⟩]).trans
      ((congrArg _ hnew).trans (List.append_nil _))
  | some face =>
    obtain ⟨i, entry⟩ := face
    obtain ⟨hentry, hnetwork⟩ := findMatchingFace_some hmatch
    have hother : entry.network ≠ n := fun h => hnm (hnetwork.symm.trans h)
    exact facesOf_set_other hentry hother hother

theorem nidOf_facesOf (uuid : String) :
    nidOf (findMatchingFace (facesOf n db) descriptor n) uuid =
      nidOf (findMatchingFace db descriptor n) uuid := by
  rw [findMatchingFace_facesOf]
  cases findMatchingFace db descriptor n <;> rfl

theorem faceCount_facesOf (s : Relay F) :
    ((findMatchingFace (facesOf n s.faceDescriptorDB) descriptor n).map fun face =>
      face.2.count).getD 0 = s.faceCount descriptor n := by
  unfold faceCount
  rw [findMatchingFace_facesOf]
  cases findMatchingFace s.faceDescriptorDB descriptor n <;> rfl

end Matching

/-! ## Slots that are given back -/

variable {n m : Network} {db : List (FaceEntry F)}

theorem releaseSlot_facesOf (nid : String) :
    facesOf n (releaseSlot nid n db) = releaseSlot nid n (facesOf n db) := by
  induction db with
  | nil => rfl
  | cons entry rest ih =>
    by_cases hn : entry.network = n
    · by_cases hnid : entry.nid = nid <;> simp_all [releaseSlot, facesOf]
    · simp_all [releaseSlot, facesOf]

theorem releaseSlot_facesOf_other (hnm : m ≠ n) (nid : String) :
    facesOf n (releaseSlot nid m db) = facesOf n db := by
  induction db with
  | nil => rfl
  | cons entry rest ih =>
    by_cases hmatch : entry.nid = nid ∧ entry.network = m
    · have hother : entry.network ≠ n := fun h => hnm (hmatch.2.symm.trans h)
      rw [releaseSlot, if_pos hmatch]
      simp [facesOf, hother]
    · rw [releaseSlot, if_neg hmatch]
      by_cases hn : entry.network = n <;> simp_all [facesOf]

end NeuronWeb.Relay
