/-
  Recovery/Threshold: two shares of a split give the secret, one gives nothing.

  Two shares are two points of a line over the field of the tables (`shamir_reconstructs`).

  One share is one point. For every secret and every value at that point there is one slope, so
  that for each secret the random vectors and the share data correspond one to one
  (`single_share_hides`).
-/
import NeuronWeb.Recovery.Shamir

set_option autoImplicit false

namespace NeuronWeb

variable {F : Type}

/-! ## Table indices -/

/-- `mul(a, b)` reads the tables within their bounds, if it reads them. -/
def MulInRange (a b : Nat) : Prop :=
  a = 0 ∨ b = 0 ∨ ∃ la lb, gfTables.LOG[a]? = some la ∧ gfTables.LOG[b]? = some lb ∧
    la + lb < gfTables.EXP.length

/-- `div(a, b)` reads the tables within their bounds, if it reads them. -/
def DivInRange (a b : Nat) : Prop :=
  b = 0 ∨ a = 0 ∨ ∃ la lb, gfTables.LOG[a]? = some la ∧ gfTables.LOG[b]? = some lb ∧
    lb ≤ la + 255 ∧ la + 255 - lb < gfTables.EXP.length

theorem length_EXP : gfTables.EXP.length = 512 := by
  obtain ⟨hlength, -⟩ := EXP_after (Nat.le_refl 257)
  unfold gfTables
  dsimp only
  rw [hlength]

theorem mulInRange_of_lt {a b : Nat} (ha : a < 256) (hb : b < 256) : MulInRange a b := by
  obtain ⟨la, hla, hale, _⟩ := LOG_at ha
  obtain ⟨lb, hlb, hble, _⟩ := LOG_at hb
  exact .inr (.inr ⟨la, lb, hla, hlb, by rw [length_EXP]; omega⟩)

theorem divInRange_of_lt {a b : Nat} (ha : a < 256) (hb : b < 256) : DivInRange a b := by
  obtain ⟨la, hla, hale, _⟩ := LOG_at ha
  obtain ⟨lb, hlb, hble, _⟩ := LOG_at hb
  exact .inr (.inr ⟨la, lb, hla, hlb, by omega, by rw [length_EXP]; omega⟩)

/-- The calls of `mul` in a split into `n`. -/
def SplitInRange (r : Bytes) (n : Nat) : Prop :=
  ∀ x, 1 ≤ x → x ≤ n → ∀ b ∈ r, MulInRange b.toNat x

/-- The calls of `div` and `mul` when `a` and `b` are combined. -/
def CombineInRange [JsNumber F] (J : JsIndexing F) (a b : ShamirShare F) : Prop :=
  ∃ x y denom ca cb : Nat, a.x = .int x ∧ b.x = .int y ∧
    indexOfInt32 (BitVec.ofInt 32 x ^^^ BitVec.ofInt 32 y) = some denom ∧
    gfDiv J b.x (some denom) = .ok (some ca) ∧ DivInRange y denom ∧
    gfDiv J a.x (some denom) = .ok (some cb) ∧ DivInRange x denom ∧
    (∀ z ∈ a.data, MulInRange z.toNat ca) ∧ ∀ z ∈ b.data, MulInRange z.toNat cb

theorem combineInRange_shares [JsNumber F] (J : JsIndexing F) {x y : Nat}
    (hx : 0 < x ∧ x < 256) (hy : 0 < y ∧ y < 256) (h : x ≠ y) (data data' : Bytes) :
    CombineInRange J ⟨.int x, data⟩ ⟨.int y, data'⟩ := by
  have hsum := coordinate_add_ne_zero hx.2 hy.2 h
  have hbyte : ∀ (z : UInt8) (w : gf256.Word), MulInRange z.toNat w.val := fun z w =>
    mulInRange_of_lt z.toNat_lt w.property
  exact ⟨x, y, _, _, _, rfl, rfl, indexOfInt32_xor hx.2 hy.2,
    gfDiv_eq J (coordinate_ne_zero hy.2 hy.1) hsum,
    divInRange_of_lt hy.2 (coordinate x hx.2 + coordinate y hy.2).property,
    gfDiv_eq J (coordinate_ne_zero hx.2 hx.1) hsum,
    divInRange_of_lt hx.2 (coordinate x hx.2 + coordinate y hy.2).property,
    fun z _ => hbyte z _, fun z _ => hbyte z _⟩

/-! ## Two shares -/

theorem shamirSplit_of_range (secret r : Bytes) {n : Nat} (hn : 2 ≤ n ∧ n ≤ 255) :
    shamirSplit secret r n =
      .ok ((List.range' 1 n).map fun (x : Nat) =>
        (⟨.int x, shareData secret r x⟩ : ShamirShare F)) := by
  rw [shamirSplit, if_neg (by omega)]

/-- Any two distinct shares, in either order, reconstruct the secret, and no index is out of the
range of the tables. -/
theorem shamir_reconstructs [JsNumber F] (J : JsIndexing F) {secret r : Bytes}
    (hr : r.length = secret.length) {n : Nat} (hn : 2 ≤ n ∧ n ≤ 255) :
    SplitInRange r n ∧ ∃ shares : List (ShamirShare F), shamirSplit secret r n = .ok shares ∧
      shares.length = n ∧ ∀ a ∈ shares, ∀ b ∈ shares, a ≠ b →
        shamirCombine J a b = .ok secret ∧ CombineInRange J a b := by
  refine ⟨fun x _ hx b _ => mulInRange_of_lt b.toNat_lt (by omega), _,
    shamirSplit_of_range secret r hn, by rw [List.length_map, List.length_range'], ?_⟩
  intro a ha b hb hne
  obtain ⟨x, hx, rfl⟩ := mem_shamirSplit (shamirSplit_of_range secret r hn) ha
  obtain ⟨y, hy, rfl⟩ := mem_shamirSplit (shamirSplit_of_range secret r hn) hb
  have hxy : x ≠ y := by
    rintro rfl
    exact hne rfl
  exact ⟨shamirCombine_shares J hr hx hy hxy, combineInRange_shares J hx hy hxy _ _⟩

/-- Two bytes in three shares. -/
theorem shamir_reconstructs_three : SplitInRange [7, 0] 3 ∧
    ∃ shares : List (ShamirShare Rat), shamirSplit [42, 255] [7, 0] 3 = .ok shares ∧
      shares.length = 3 ∧ ∀ a ∈ shares, ∀ b ∈ shares, a ≠ b →
        shamirCombine ⟨fun _ => .ok 0, fun _ => none⟩ a b = .ok [42, 255] ∧
          CombineInRange ⟨fun _ => .ok 0, fun _ => none⟩ a b := by
  have hr : ([7, 0] : Bytes).length = ([42, 255] : Bytes).length := rfl
  have hn : 2 ≤ 3 ∧ 3 ≤ 255 := by decide
  exact shamir_reconstructs _ hr hn

/-! ## One share -/

/-- A vector of as many bytes as the secret has. -/
abbrev SecretVector (secret : Bytes) : Type := { b : Bytes // b.length = secret.length }

/-- The data at `x` of the split with the random vector `r`. -/
def shareVector (secret : Bytes) (x : Nat) (r : SecretVector secret) : SecretVector secret :=
  ⟨shareData secret r.val x, length_shareData r.property x⟩

theorem existsUnique_shareByte {x : Nat} (hx : 0 < x ∧ x < 256) (s d : UInt8) :
    ∃! r : UInt8, shareByte x s r = d := by
  have hword : coordinate x hx.2 ≠ 0 := coordinate_ne_zero hx.2 hx.1
  have hline : ∀ r : UInt8, byteWord (shareByte x s r) =
      byteWord s + byteWord r * coordinate x hx.2 := fun r =>
    byteWord_shareByte s r (coordinate x hx.2)
  refine ⟨UInt8.ofNat ((byteWord d - byteWord s) / coordinate x hx.2).val, ?_, ?_⟩
  · have hvalue := hline (UInt8.ofNat ((byteWord d - byteWord s) / coordinate x hx.2).val)
    rw [byteWord_ofNat, div_mul_cancel₀ _ hword, add_sub_cancel] at hvalue
    show shareByte x s _ = d
    rw [← ofNat_val_byteWord (shareByte x s _), hvalue, ofNat_val_byteWord]
  · intro r hr
    have hslope : (byteWord d - byteWord s) / coordinate x hx.2 = byteWord r := by
      rw [← hr, hline, add_sub_cancel_left, mul_div_cancel_right₀ _ hword]
    rw [hslope, ofNat_val_byteWord]

theorem existsUnique_zipWith {α β γ : Type} {f : α → β → γ} (hf : ∀ a c, ∃! b, f a b = c) :
    ∀ {as : List α} {cs : List γ}, cs.length = as.length →
      ∃! bs : List β, bs.length = as.length ∧ List.zipWith f as bs = cs := by
  intro as
  induction as with
  | nil =>
    intro cs hcs
    refine ⟨[], ⟨rfl, (List.length_eq_zero_iff.mp hcs).symm⟩, fun bs hbs => ?_⟩
    exact List.length_eq_zero_iff.mp hbs.1
  | cons a as ih =>
    intro cs hcs
    cases cs with
    | nil => cases hcs
    | cons c cs =>
      obtain ⟨b, hb, hbone⟩ := hf a c
      obtain ⟨bs, ⟨hlength, hbs⟩, hone⟩ := ih (Nat.succ.inj hcs)
      refine ⟨b :: bs, ⟨congrArg Nat.succ hlength, ?_⟩, ?_⟩
      · rw [List.zipWith_cons_cons, hb, hbs]
      · rintro others ⟨hothers, hzip⟩
        cases others with
        | nil => cases hothers
        | cons b' bs' =>
          rw [List.zipWith_cons_cons, List.cons.injEq] at hzip
          rw [hbone b' hzip.1, hone bs' ⟨Nat.succ.inj hothers, hzip.2⟩]

theorem existsUnique_shareData {secret d : Bytes} (hd : d.length = secret.length) {x : Nat}
    (hx : 0 < x ∧ x < 256) : ∃! r : Bytes, r.length = secret.length ∧ shareData secret r x = d :=
  existsUnique_zipWith (existsUnique_shareByte hx) hd

theorem shareVector_bijective (secret : Bytes) {x : Nat} (hx : 0 < x ∧ x < 256) :
    Function.Bijective (shareVector secret x) := by
  rw [Function.bijective_iff_existsUnique]
  intro d
  obtain ⟨r, ⟨hlength, hdata⟩, hone⟩ := existsUnique_shareData d.property hx
  refine ⟨⟨r, hlength⟩, Subtype.ext hdata, fun r' hr' => Subtype.ext ?_⟩
  exact hone r'.val ⟨r'.property, congrArg Subtype.val hr'⟩

theorem mem_split_iff {secret r : Bytes} {n : Nat} (hn : 2 ≤ n ∧ n ≤ 255) {x : Nat}
    (hx : 1 ≤ x ∧ x ≤ n) {data : Bytes} :
    (∃ shares : List (ShamirShare F), shamirSplit secret r n = .ok shares ∧
      ⟨.int x, data⟩ ∈ shares) ↔ shareData secret r x = data := by
  rw [shamirSplit_of_range secret r hn]
  constructor
  · rintro ⟨shares, hshares, hmem⟩
    rw [← Except.ok.inj hshares] at hmem
    obtain ⟨y, _, heq⟩ := List.mem_map.mp hmem
    have hxy : y = x := by simpa using congrArg ShamirShare.x heq
    rw [← hxy]
    exact congrArg ShamirShare.data heq
  · rintro rfl
    exact ⟨_, rfl, List.mem_map.mpr ⟨x, List.mem_range'_1.mpr (by omega), rfl⟩⟩

/-- A single share reveals nothing: at each coordinate the random vectors and the share data
correspond one to one, for the one secret and for the other, and each share of the one is the
share of the other for exactly one random vector. -/
theorem single_share_hides {s s' : Bytes} (h : s.length = s'.length) {n : Nat}
    (hn : 2 ≤ n ∧ n ≤ 255) {x : Nat} (hx : 1 ≤ x ∧ x ≤ n) :
    Function.Bijective (shareVector s x) ∧ Function.Bijective (shareVector s' x) ∧
      ∀ r : SecretVector s, ∀ shares : List (ShamirShare F),
        shamirSplit s r.val n = .ok shares → ∀ share ∈ shares, share.x = .int x →
          ∃! r' : SecretVector s', ∃ shares' : List (ShamirShare F),
            shamirSplit s' r'.val n = .ok shares' ∧ share ∈ shares' := by
  have hbyte : 0 < x ∧ x < 256 := by omega
  refine ⟨shareVector_bijective s hbyte, shareVector_bijective s' hbyte, ?_⟩
  rintro r shares hshares ⟨sx, data⟩ hmem rfl
  have hdata : shareData s r.val x = data := (mem_split_iff hn hx).mp ⟨shares, hshares, hmem⟩
  have hlength : data.length = s'.length := by
    rw [← hdata, length_shareData r.property, h]
  obtain ⟨r', ⟨hr', hsame⟩, hone⟩ := existsUnique_shareData hlength hbyte
  refine ⟨⟨r', hr'⟩, (mem_split_iff hn hx).mpr hsame, fun other hother => Subtype.ext ?_⟩
  exact hone other.val ⟨other.property, (mem_split_iff hn hx).mp hother⟩

/-- The third of three shares, for two secrets of two bytes. -/
theorem single_share_hides_three :
    Function.Bijective (shareVector [42, 255] 3) ∧ Function.Bijective (shareVector [0, 1] 3) ∧
      ∀ r : SecretVector [42, 255], ∀ shares : List (ShamirShare Rat),
        shamirSplit [42, 255] r.val 3 = .ok shares → ∀ share ∈ shares, share.x = .int (3 : Nat) →
          ∃! r' : SecretVector [0, 1], ∃ shares' : List (ShamirShare Rat),
            shamirSplit [0, 1] r'.val 3 = .ok shares' ∧ share ∈ shares' := by
  have hsecrets : ([42, 255] : Bytes).length = ([0, 1] : Bytes).length := rfl
  have hn : 2 ≤ 3 ∧ 3 ≤ 255 := by decide
  have hx : 1 ≤ 3 ∧ 3 ≤ 3 := by decide
  exact single_share_hides hsecrets hn hx

end NeuronWeb
