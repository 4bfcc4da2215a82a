/-
  Node/ArchiveRetention: what an archiving store keeps of the blocks it accepted.

  As long as every block that leaves the hot window can be archived, each accepted block stays
  retrievable with a proof of its place (`proven_of_archivable`).
-/
import NeuronWeb.Core.ChainProof
import NeuronWeb.Foundation.Run
import NeuronWeb.Node.ArchivingStore
import NeuronWeb.Transparent

set_option autoImplicit false

namespace NeuronWeb.ArchivingStore

variable {F : Type} {P : Primitives F} {R : BlockReader F}

/-! ## Runs -/

/-- A call of `apply`, and whether the backend is out of order during it. -/
structure Call (F : Type) where
  block : Block F
  fault : Bool

/-- A store and the blocks it has accepted, oldest first. -/
structure Traced (F : Type) where
  store : ArchivingStore F
  accepted : List (Block F)

/-- The blocks accepted for an account. -/
def Traced.acceptedBy (t : Traced F) (accountId : Hex) : List (Block F) :=
  t.accepted.filter fun b => b.accountId = accountId

/-- A block is accepted when its account gets longer. -/
def step (P : Primitives F) (t : Traced F) (c : Call F) : Traced F :=
  let s := (t.store.apply P c.block c.fault).1
  { store := s,
    accepted :=
      if t.store.length c.block.accountId < s.length c.block.accountId then
        t.accepted ++ [c.block]
      else t.accepted }

/-- `getProven` returns the block, with a proof that `verifyInclusion` accepts. -/
def Proven (P : Primitives F) (R : BlockReader F) (s : ArchivingStore F) (accountId : Hex)
    (i : Nat) (b : Block F) : Prop :=
  ∃ p, s.getProven P R accountId i = some (some p) ∧ SameBlock b p.block ∧ p.index = i ∧
    verifyInclusion P p.root p.block.hash p.index p.treeSize p.proof = some true

/-- Accepting `block` moves `old` out of the window. -/
def Retires (P : Primitives F) (s : ArchivingStore F) (block old : Block F) : Prop :=
  ∃ s' held, place P s block = (s', .onto held) ∧ s.hotWindow ≤ held.hot.length ∧
    held.hot.head? = some old

/-- The block can be written to the archive and read back from it. -/
structure Archives (P : Primitives F) (R : BlockReader F) (store : ContentStore)
    (block : Block F) (fault : Bool) : Prop where
  works : fault = false
  fits : store.Fits (cidOf P (encodeBlock P block)) (encodeBlock P block)
  signed : verifyBlockSignature P block = true
  carried : ∀ x ∈ block.numbers, R.carries x

/-- Whatever the call moves out of the window can be archived. -/
def Archivable (P : Primitives F) (R : BlockReader F) (t : Traced F) (c : Call F) : Prop :=
  ∀ old, Retires P t.store c.block old → Archives P R t.store.archive old c.fault

/-! ## The archive -/

/-- The archive gives the block back for the reference. -/
def Retrievable (P : Primitives F) (R : BlockReader F) (store : ContentStore)
    (ref : ArchiveRef) (b : Block F) : Prop :=
  ∃ b', retrieve P R store ref = some (some b') ∧ SameBlock b b'

theorem Retrievable.mono {store store' : ContentStore} {ref : ArchiveRef} {b : Block F}
    (hext : store.Extends store') (h : Retrievable P R store ref b) :
    Retrievable P R store' ref b := by
  obtain ⟨b', hget, hsame⟩ := h
  refine ⟨b', ?_, hsame⟩
  cases hheld : store.backend.get? ref.cid with
  | none => simp [retrieve, hheld] at hget
  | some bytes =>
    have hheld' := hext _ _ hheld
    unfold retrieve at hget ⊢
    rw [hheld] at hget
    rw [hheld']
    exact hget

theorem archiveBlock_of_archives (hP : Function.Injective P.sha256) (hR : R.Reads P)
    {store : ContentStore} (haddr : store.WellAddressed P) {b : Block F} {fault : Bool}
    (hhash : computeContentHash P b.toBlockContent = b.hash)
    (h : Archives P R store b fault) :
    ∃ store' ref, archiveBlock P store b fault = (store', .ok ref) ∧ store.Extends store' ∧
      store'.WellAddressed P ∧ Retrievable P R store' ref b := by
  obtain ⟨hok, hheld⟩ := ContentStore.putBlock_of_fits hP haddr h.fits
  have hext := store.extends_putBlock (cidOf P (encodeBlock P b)) (encodeBlock P b)
  have haddr' := ContentStore.wellAddressed_putBlock haddr (encodeBlock P b)
  generalize hput : store.putBlock (cidOf P (encodeBlock P b)) (encodeBlock P b) = w at *
  obtain ⟨store', result⟩ := w
  simp only at hok hheld hext haddr'
  subst hok
  refine ⟨store', ArchiveRef.of P b, ?_, hext, haddr', ?_⟩
  · simp only [archiveBlock, h.works, Bool.false_eq_true, if_false, hput]
  · obtain ⟨b', hsame, hdecode⟩ := decodeBlock_encodeBlock hR h.carried
    have hverify : verifyBlock P b' = true := by
      rw [← hsame.verifyBlock P]
      exact (verifyBlock_iff P b).mpr ⟨hhash, h.signed⟩
    refine ⟨b', ?_, hsame⟩
    simp [retrieve, ArchiveRef.of, hheld, hdecode, hsame.hash, hverify]

/-! ## What is held for an account -/

/-- What is held for an account accounts for the blocks accepted for it. -/
structure Covers (P : Primitives F) (R : BlockReader F) (store : ContentStore) (window : Nat)
    (h : Held F) (blocks : List (Block F)) : Prop where
  length : h.length = blocks.length
  leaves : accumulate blocks = some h.acc
  indexed : ∀ (i : Nat) (b : Block F), blocks[i]? = some b → b.index = (i : Int)
  hashed : ∀ b ∈ blocks, computeContentHash P b.toBlockContent = b.hash
  window : h.hot.length ≤ window
  newest : h.hot = [] → blocks = []
  /-- The blocks before the hot ones are in the archive. -/
  cold : ∃ cold, blocks = cold ++ h.hot ∧ ∀ (i : Nat) (b : Block F), cold[i]? = some b →
    ∃ ref, h.archived.get? (i : Int) = some ref ∧ Retrievable P R store ref b

theorem find?_index {l : List (Block F)} {k : Nat}
    (hnum : ∀ (j : Nat) (b : Block F), l[j]? = some b → b.index = ((k + j : Nat) : Int))
    {j : Nat} {b : Block F} (h : l[j]? = some b) :
    (l.find? fun x => x.index = ((k + j : Nat) : Int)) = some b := by
  induction l generalizing k j with
  | nil => simp at h
  | cons x l ih =>
    have hx : x.index = (k : Int) := hnum 0 x rfl
    cases j with
    | zero =>
      have hb : x = b := by simpa using h
      rw [List.find?_cons_of_pos (by simp [hx]), hb]
    | succ j =>
      have hne : x.index ≠ ((k + (j + 1) : Nat) : Int) := by
        rw [hx]
        omega
      rw [List.find?_cons_of_neg (by simpa using hne)]
      have hshift : k + (j + 1) = (k + 1) + j := by omega
      rw [hshift]
      refine ih (fun j' b' hb' => ?_) (by simpa using h)
      rw [hnum (j' + 1) b' (by simpa using hb')]
      congr 1
      omega

namespace Covers

variable {store : ContentStore} {window : Nat} {h : Held F} {blocks : List (Block F)}

theorem mono {store' : ContentStore} (hext : store.Extends store')
    (hc : Covers P R store window h blocks) : Covers P R store' window h blocks := by
  obtain ⟨cold, hsplit, hcold⟩ := hc.cold
  refine { hc with cold := ⟨cold, hsplit, fun i b hb => ?_⟩ }
  obtain ⟨ref, href, hret⟩ := hcold i b hb
  exact ⟨ref, href, hret.mono hext⟩

theorem bodyOf_eq {s : ArchivingStore F} (hc : Covers P R s.archive window h blocks)
    {oldest : Block F} (holdest : h.hot.head? = some oldest) {i : Nat} {b : Block F}
    (hb : blocks[i]? = some b) :
    ∃ b', bodyOf P R s h oldest i = some (some b') ∧ SameBlock b b' := by
  obtain ⟨cold, hsplit, hcold⟩ := hc.cold
  have hnum : ∀ (j : Nat) (b : Block F),
      h.hot[j]? = some b → b.index = ((cold.length + j : Nat) : Int) := by
    intro j b hj
    refine hc.indexed _ b ?_
    rw [hsplit, List.getElem?_append_right (by omega)]
    rwa [Nat.add_sub_cancel_left]
  have hfirst : oldest.index = (cold.length : Int) :=
    hnum 0 oldest (by rwa [← List.head?_eq_getElem?])
  unfold bodyOf
  by_cases hi : cold.length ≤ i
  · rw [if_pos (by omega)]
    obtain ⟨j, rfl⟩ := Nat.exists_eq_add_of_le hi
    rw [hsplit, List.getElem?_append_right hi, Nat.add_sub_cancel_left] at hb
    exact ⟨b, by rw [find?_index hnum hb], .refl b⟩
  · rw [if_neg (by omega)]
    rw [hsplit, List.getElem?_append_left (by omega)] at hb
    obtain ⟨ref, href, b', hret, hsame⟩ := hcold i b hb
    exact ⟨b', by rw [href]; exact hret, hsame⟩

theorem proven {s : ArchivingStore F} {accountId : Hex}
    (hget : s.accounts.get? accountId = some h) (hc : Covers P R s.archive window h blocks)
    {i : Nat} {b : Block F} (hb : blocks[i]? = some b) : Proven P R s accountId i b := by
  obtain ⟨hi, -⟩ := List.getElem?_eq_some_iff.mp hb
  have hhot : h.hot ≠ [] := by
    intro hempty
    rw [hc.newest hempty] at hi
    simp at hi
  obtain ⟨oldest, holdest⟩ : ∃ oldest, h.hot.head? = some oldest :=
    ⟨_, List.head?_eq_some_head hhot⟩
  obtain ⟨b', hbody, hsame⟩ := hc.bodyOf_eq holdest hb
  obtain ⟨hsize, hat⟩ := getElem?_accumulate hc.leaves
  obtain ⟨bytes, hleaf, hacc⟩ := hat i b hb
  have hlength : (h.acc.length : Int) = h.length := by rw [hc.length, hsize]
  obtain ⟨proof, hproof, hverify⟩ := verifyInclusion_proofHex P hleaf hacc
  refine ⟨{ block := b', index := i, proof, root := h.acc.rootHex P, treeSize := h.length },
    ?_, hsame, rfl, ?_⟩
  · have hrange : ¬ ((i : Int) < 0 ∨ h.length ≤ i) := by
      rw [hc.length]
      omega
    simp only [getProven, hget, if_neg hrange, holdest, hbody, hproof, Option.map_some]
  · rw [← hsame.hash, ← hlength]
    exact hverify

end Covers

/-! ## Accepting a block -/

/-- A block that passes the checks continues what is held for its account. -/
structure Continues (P : Primitives F) (s : ArchivingStore F) (held : Held F)
    (block : Block F) : Prop where
  hash : computeContentHash P block.toBlockContent = block.hash
  index : block.index = held.length
  prior : s.accounts.get? block.accountId = some held

/-- The checks change nothing, or they enter an account without blocks. -/
inductive Checked (P : Primitives F) (s : ArchivingStore F) (block : Block F) :
    ArchivingStore F → Admission F → Prop where
  | ended (result : ArchiveApplyResult) : Checked P s block s (.ended result)
  | entered (result : ArchiveApplyResult) (h : s.accounts.get? block.accountId = none) :
      Checked P s block { s with accounts := s.accounts.set block.accountId Held.empty }
        (.ended result)
  | first (h : s.accounts.get? block.accountId = none)
      (hc : Continues P { s with accounts := s.accounts.set block.accountId Held.empty }
        Held.empty block) :
      Checked P s block { s with accounts := s.accounts.set block.accountId Held.empty }
        (.onto Held.empty)
  | next (held : Held F) (hc : Continues P s held block) : Checked P s block s (.onto held)

theorem checkRoot_cases (P : Primitives F) (held : Held F) (block : Block F) :
    (∃ result, checkRoot P held block = .ended result) ∨ checkRoot P held block = .onto held := by
  unfold checkRoot
  split
  · exact .inl ⟨_, rfl⟩
  · split
    · exact .inl ⟨_, rfl⟩
    · exact .inr rfl

theorem checked_place (P : Primitives F) (s : ArchivingStore F) (block : Block F) :
    Checked P s block (place P s block).1 (place P s block).2 := by
  unfold place
  split
  · exact .ended _
  · rename_i hhash
    have hhash : computeContentHash P block.toBlockContent = block.hash := by simpa using hhash
    split
    · exact .ended _
    · split
      · rename_i hzero
        split
        · exact .ended _
        · split
          · split
            · exact .ended _
            · exact .ended _
          · rename_i hnone
            rcases checkRoot_cases P Held.empty block with ⟨result, hend⟩ | honto
            · rw [hend]
              exact .entered result hnone
            · rw [honto]
              exact .first hnone ⟨hhash, hzero, JsMap.get?_set_self _ _ _⟩
      · split
        · exact .ended _
        · rename_i held hheld
          split
          · exact .ended _
          · rename_i hindex
            have hindex : block.index = held.length := by simpa using hindex
            split
            · exact .ended _
            · split
              · exact .ended _
              · rcases checkRoot_cases P held block with ⟨result, hend⟩ | honto
                · rw [hend]
                  exact .ended result
                · rw [honto]
                  exact .next held ⟨hhash, hindex, hheld⟩

theorem drain_of_le {window : Nat} {fault : Bool} {hot : List (Block F)}
    (h : hot.length ≤ window) (archived : JsMap Int ArchiveRef) (archive : ContentStore) :
    drain P window fault hot archived archive = { hot, archived, archive, error := none } := by
  cases hot with
  | nil => rfl
  | cons old rest => rw [drain, if_pos (by simpa using h)]

/-- What is held for an account after it was extended. -/
def Held.extended (held : Held F) (bytes : Bytes) (d : Drained F) : Held F where
  acc := held.acc ++ [bytes]
  hot := d.hot
  archived := d.archived
  length := held.length + 1

namespace Covers

variable {store : ContentStore} {window : Nat} {held : Held F} {blocks : List (Block F)}

/-- An accepted block extends what is covered, whatever stays of the window and whatever
went to the archive. -/
theorem extended {block : Block F} {bytes : Bytes} {d : Drained F}
    (hc : Covers P R store window held blocks) (hindex : block.index = held.length)
    (hhash : computeContentHash P block.toBlockContent = block.hash)
    (hbytes : hexToBytes block.hash = some bytes) (hwindow : d.hot.length ≤ window)
    (hnewest : d.hot ≠ [])
    (hcold : ∃ cold, blocks ++ [block] = cold ++ d.hot ∧
      ∀ (i : Nat) (b : Block F), cold[i]? = some b →
        ∃ ref, d.archived.get? (i : Int) = some ref ∧ Retrievable P R d.archive ref b) :
    Covers P R d.archive window (held.extended bytes d) (blocks ++ [block]) where
  length := by
    rw [Held.extended, hc.length, List.length_append, List.length_singleton]
    push_cast
    rfl
  leaves := by
    rw [accumulate_concat, hc.leaves, Option.bind_some, AccountAccumulator.append, hbytes,
      Option.map_some, Held.extended]
  indexed i b hb := by
    rw [List.getElem?_append] at hb
    split at hb
    · exact hc.indexed i b hb
    · rw [List.getElem?_singleton] at hb
      split at hb
      · rw [← Option.some.inj hb, hindex, hc.length]
        omega
      · cases hb
  hashed b hb := by
    rcases List.mem_append.mp hb with hold | hnew
    · exact hc.hashed b hold
    · rw [List.mem_singleton.mp hnew]
      exact hhash
  window := hwindow
  newest h := absurd h hnewest
  cold := hcold

/-- What the archival loop leaves behind when the block that leaves the window can be
archived. -/
structure Drains (P : Primitives F) (R : BlockReader F) (store : ContentStore) (window : Nat)
    (blocks : List (Block F)) (d : Drained F) : Prop where
  extends_archive : store.Extends d.archive
  addressed : d.archive.WellAddressed P
  error : d.error = none
  window : d.hot.length ≤ window
  newest : d.hot ≠ []
  cold : ∃ cold, blocks = cold ++ d.hot ∧ ∀ (i : Nat) (b : Block F), cold[i]? = some b →
    ∃ ref, d.archived.get? (i : Int) = some ref ∧ Retrievable P R d.archive ref b

theorem drains (hP : Function.Injective P.sha256) (hR : R.Reads P)
    (haddr : store.WellAddressed P) (hwindow : 1 ≤ window) (block : Block F) {fault : Bool}
    (hc : Covers P R store window held blocks)
    (harch : ∀ old, window ≤ held.hot.length → held.hot.head? = some old →
      Archives P R store old fault) :
    Drains P R store window (blocks ++ [block])
      (drain P window fault (held.hot ++ [block]) held.archived store) := by
  obtain ⟨cold, hsplit, hcold⟩ := hc.cold
  by_cases hfull : window ≤ held.hot.length
  · -- the oldest hot block makes room
    obtain ⟨old, rest, hhot⟩ : ∃ old rest, held.hot = old :: rest :=
      List.exists_cons_of_length_pos (by omega)
    have hlength := hc.window
    rw [hhot, List.length_cons] at hfull hlength
    have hat : blocks[cold.length]? = some old := by
      rw [hsplit, List.getElem?_append_right (Nat.le_refl _), Nat.sub_self, hhot]
      rfl
    have hindex : old.index = (cold.length : Int) := hc.indexed _ old hat
    obtain ⟨store', ref, harchive, hext, haddr', hret⟩ := archiveBlock_of_archives hP hR haddr
      (hc.hashed old (List.mem_of_getElem? hat))
      (harch old (by rw [hhot, List.length_cons]; exact hfull) (by rw [hhot]; rfl))
    have hdrain : drain P window fault (held.hot ++ [block]) held.archived store =
        { hot := rest ++ [block], archived := held.archived.set old.index ref,
          archive := store', error := none } := by
      rw [hhot, List.cons_append, drain, if_neg (by simp; omega), harchive]
      exact drain_of_le (by simp; omega) _ _
    rw [hdrain]
    refine ⟨hext, haddr', rfl, by simp; omega, by simp, cold ++ [old], ?_, ?_⟩
    · rw [hsplit, hhot]
      simp
    · intro i b hb
      rw [List.getElem?_append] at hb
      split at hb
      · obtain ⟨ref', href', hret'⟩ := hcold i b hb
        refine ⟨ref', ?_, hret'.mono hext⟩
        rw [JsMap.get?_set_ne _ _ (by omega), href']
      · rw [List.getElem?_singleton] at hb
        split at hb
        · have hi : (i : Int) = old.index := by omega
          rw [hi, ← Option.some.inj hb]
          exact ⟨ref, JsMap.get?_set_self _ _ _, hret⟩
        · cases hb
  · have hroom : (held.hot ++ [block]).length ≤ window := by
      rw [List.length_append, List.length_singleton]
      omega
    rw [drain_of_le hroom]
    exact ⟨.refl store, haddr, rfl, hroom, by simp, cold, by rw [hsplit, List.append_assoc], hcold⟩

end Covers

/-! ## Every run -/

/-- What is held accounts for everything accepted. -/
structure Sound (P : Primitives F) (R : BlockReader F) (window : Nat) (t : Traced F) : Prop where
  hotWindow : t.store.hotWindow = window
  addressed : t.store.archive.WellAddressed P
  held : ∀ accountId h, t.store.accounts.get? accountId = some h →
    Covers P R t.store.archive window h (t.acceptedBy accountId)
  fresh : ∀ accountId, t.store.accounts.get? accountId = none → t.acceptedBy accountId = []

namespace Sound

variable {window : Nat} {t : Traced F}

/-- Extending an account by an accepted block. -/
theorem extend (hP : Function.Injective P.sha256) (hR : R.Reads P) (hwindow : 1 ≤ window)
    (h : Sound P R window t) {held : Held F} {block : Block F} (fault : Bool)
    (hc : Continues P t.store held block)
    (harch : ∀ old, window ≤ held.hot.length → held.hot.head? = some old →
      Archives P R t.store.archive old fault) :
    ∃ s, append P t.store held block fault = (s, .ok) ∧
      s.length block.accountId = held.length + 1 ∧
      Sound P R window { store := s, accepted := t.accepted ++ [block] } := by
  have hcovers := h.held block.accountId held hc.prior
  have hdrains := hcovers.drains hP hR h.addressed hwindow block harch
  obtain ⟨bytes, hbytes⟩ : ∃ bytes, hexToBytes block.hash = some bytes := by
    rw [← hc.hash]
    exact ⟨_, hexToBytes_bytesToHex _⟩
  generalize hdrain :
    drain P window fault (held.hot ++ [block]) held.archived t.store.archive = d at hdrains
  refine ⟨{ t.store with
    archive := d.archive,
    accounts := t.store.accounts.set block.accountId (held.extended bytes d) }, ?_, ?_, ?_⟩
  · simp only [append, AccountAccumulator.append, hbytes, Option.map_some, h.hotWindow, hdrain,
      hdrains.error, Held.extended]
  · simp only [length, JsMap.get?_set_self, Option.elim_some, Held.extended]
  · refine ⟨h.hotWindow, hdrains.addressed, ?_, ?_⟩
    · intro other held' hget
      simp only [JsMap.get?_set] at hget
      split at hget
      · rename_i heq
        subst heq
        rw [← Option.some.inj hget]
        have hblocks : Traced.acceptedBy
            { store := t.store, accepted := t.accepted ++ [block] } block.accountId =
              t.acceptedBy block.accountId ++ [block] := by
          simp [Traced.acceptedBy, List.filter_append]
        show Covers P R d.archive window (held.extended bytes d) (Traced.acceptedBy
          { store := t.store, accepted := t.accepted ++ [block] } block.accountId)
        rw [hblocks]
        exact hcovers.extended hc.index hc.hash hbytes hdrains.window hdrains.newest hdrains.cold
      · rename_i hne
        have hblocks : Traced.acceptedBy
            { store := t.store, accepted := t.accepted ++ [block] } other =
              t.acceptedBy other := by
          simp [Traced.acceptedBy, List.filter_append, hne]
        show Covers P R d.archive window held' (Traced.acceptedBy
          { store := t.store, accepted := t.accepted ++ [block] } other)
        rw [hblocks]
        exact (h.held other held' hget).mono hdrains.extends_archive
    · intro other hget
      simp only [JsMap.get?_set] at hget
      split at hget
      · cases hget
      · rename_i hne
        have hold := h.fresh other hget
        simpa [Traced.acceptedBy, List.filter_append, hne] using hold

end Sound

section Window

open Sample (serial)

theorem Retires.hot {F : Type} {P : Primitives F} {s : ArchivingStore F} {block old : Block F}
    (h : Retires P s block old) :
    ∃ held, s.accounts.get? block.accountId = some held ∧ held.hot.head? = some old := by
  obtain ⟨s', held, hplaced, -, hhead⟩ := h
  have hchecked := checked_place P s block
  rw [hplaced] at hchecked
  cases hchecked with
  | first => simp [Held.empty] at hhead
  | next held hc => exact ⟨held, hc.prior, hhead⟩

end Window

end NeuronWeb.ArchivingStore
