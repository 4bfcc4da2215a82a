/-
  Foundation/ClaimBook: offers that are claimed once, in whatever order the two arrive.

  An offer puts a value under its key and a claim takes it away for good; a claim that
  arrives first is remembered, and the offer it was for is never put up.  What a book ends
  up showing is therefore a function of the offers and claims it has seen and not of their
  order, which is what `Shows` says.
-/
import NeuronWeb.Foundation.JsMap

set_option autoImplicit false

namespace NeuronWeb

variable {K V : Type} [DecidableEq K]

/-- The offers still up, and the keys that have been claimed. -/
structure ClaimBook (K V : Type) [DecidableEq K] where
  offers : JsMap K V
  claimed : JsSet K

namespace ClaimBook

def empty : ClaimBook K V := ⟨JsMap.empty, JsMap.empty⟩

/-- Put up an offer, unless its claim has come first. -/
def offer (book : ClaimBook K V) (key : K) (v : V) : ClaimBook K V :=
  if book.claimed.has key then book else { book with offers := book.offers.set key v }

/-- Claim a key, whether or not it is on offer yet. -/
def claim (book : ClaimBook K V) (key : K) : ClaimBook K V :=
  ⟨book.offers.delete key, JsSet.add book.claimed key⟩

/-- Put up an offer under `key`, if there is one. -/
def noteOffer (book : ClaimBook K V) (key : K) : Option V → ClaimBook K V
  | none => book
  | some v => book.offer key v

/-- Claim a key, if there is one to claim. -/
def noteClaim (book : ClaimBook K V) : Option K → ClaimBook K V
  | none => book
  | some key => book.claim key

/-- The book shows exactly the offered values that have not been claimed. -/
structure Shows (book : ClaimBook K V) (offered : K → V → Prop) (claimed : K → Prop) :
    Prop where
  has_claimed : ∀ key, book.claimed.has key = true ↔ claimed key
  get?_offers : ∀ key v, book.offers.get? key = some v ↔ offered key v ∧ ¬ claimed key

variable {book : ClaimBook K V} {offered : K → V → Prop} {claimed : K → Prop}

theorem shows_empty : Shows (empty : ClaimBook K V) (fun _ _ => False) (fun _ => False) where
  has_claimed key := by simp [empty]
  get?_offers key v := by simp [empty]

section

variable (h : Shows book offered claimed)
include h

theorem Shows.congr {offered' : K → V → Prop} {claimed' : K → Prop}
    (hoffered : ∀ key v, offered key v ↔ offered' key v)
    (hclaimed : ∀ key, claimed key ↔ claimed' key) : Shows book offered' claimed' where
  has_claimed key := (h.has_claimed key).trans (hclaimed key)
  get?_offers key v := by rw [h.get?_offers, hoffered, hclaimed]

/-- Offering under a key that nothing has been offered under. -/
theorem Shows.offer {key : K} (v : V) (fresh : ∀ w, ¬ offered key w) :
    Shows (book.offer key v) (fun k w => offered k w ∨ (k = key ∧ w = v)) claimed := by
  unfold ClaimBook.offer
  cases hclaimed : book.claimed.has key with
  | true =>
    refine ⟨h.has_claimed, fun k w => ?_⟩
    rw [if_pos rfl, h.get?_offers]
    constructor
    · exact fun ⟨hold, hnot⟩ => ⟨.inl hold, hnot⟩
    · rintro ⟨hold | ⟨rfl, _⟩, hnot⟩
      · exact ⟨hold, hnot⟩
      · exact absurd ((h.has_claimed k).mp hclaimed) hnot
  | false =>
    refine ⟨h.has_claimed, fun k w => ?_⟩
    simp only [Bool.false_eq_true, if_false, JsMap.get?_set]
    split
    · rename_i hkey
      subst hkey
      constructor
      · intro hv
        refine ⟨.inr ⟨rfl, (Option.some.inj hv).symm⟩, fun hc => ?_⟩
        rw [(h.has_claimed key).mpr hc] at hclaimed
        cases hclaimed
      · rintro ⟨hold | ⟨_, rfl⟩, _⟩
        · exact absurd hold (fresh w)
        · rfl
    · rename_i hkey
      rw [h.get?_offers]
      constructor
      · exact fun ⟨hold, hnot⟩ => ⟨.inl hold, hnot⟩
      · rintro ⟨hold | ⟨rfl, _⟩, hnot⟩
        · exact ⟨hold, hnot⟩
        · exact absurd rfl hkey

theorem Shows.claim (key : K) : Shows (book.claim key) offered (fun k => claimed k ∨ k = key) := by
  refine ⟨fun k => ?_, fun k v => ?_⟩
  · simp only [ClaimBook.claim, JsSet.has_add, Bool.or_eq_true, decide_eq_true_eq, h.has_claimed]
    exact ⟨fun hk => hk.symm.imp_right Eq.symm, fun hk => hk.symm.imp_left Eq.symm⟩
  · simp only [ClaimBook.claim, JsMap.get?_delete]
    split
    · rename_i hkey
      subst hkey
      simp
    · rename_i hkey
      rw [h.get?_offers, not_or]
      constructor
      · rintro ⟨hold, hnot⟩
        exact ⟨hold, hnot, Ne.symm hkey⟩
      · rintro ⟨hold, hnot, _⟩
        exact ⟨hold, hnot⟩

theorem Shows.noteOffer {key : K} (v? : Option V) (fresh : ∀ w, ¬ offered key w) :
    Shows (book.noteOffer key v?) (fun k w => offered k w ∨ (k = key ∧ v? = some w)) claimed := by
  cases v? with
  | none => exact h.congr (fun k w => by simp) (fun _ => Iff.rfl)
  | some v =>
    refine (h.offer v fresh).congr (fun k w => ?_) (fun _ => Iff.rfl)
    rw [Option.some.injEq, eq_comm (a := v)]

theorem Shows.noteClaim (key? : Option K) :
    Shows (book.noteClaim key?) offered (fun k => claimed k ∨ key? = some k) := by
  cases key? with
  | none => exact h.congr (fun _ _ => Iff.rfl) (fun k => by simp)
  | some key =>
    refine (h.claim key).congr (fun _ _ => Iff.rfl) (fun k => ?_)
    rw [Option.some.injEq, eq_comm (a := key)]

theorem Shows.get?_eq {book' : ClaimBook K V} (h' : Shows book' offered claimed) (key : K) :
    book.offers.get? key = book'.offers.get? key :=
  Option.ext fun v => by rw [h.get?_offers, h'.get?_offers]

end

end ClaimBook

end NeuronWeb
