/-
  Recovery/Shamir: Shamir secret sharing over GF(256) with threshold 2 (`core/shamir.ts`).

  The tables `EXP` and `LOG` are filled by multiplying with the generator 3 again and again, as in
  the source.  What is read outside a table is `undefined`, here `none`; exclusive or takes it
  for 0.  An x-coordinate that a relay sends is whatever JSON it likes.
-/
import NeuronWeb.Directory.Records
import NeuronWeb.Foundation.LogField
import Mathlib.Data.List.Iterate
import Mathlib.Data.Nat.Bitwise

set_option autoImplicit false

namespace NeuronWeb

variable {F : Type}

/-! ## The tables -/

/-- Multiply by the generator 3: `x·3 = x·2 ⊕ x`, with reduction. -/
def timesThree (x : Nat) : Nat :=
  let x := (x <<< 1) ^^^ x
  if x &&& 0x100 ≠ 0 then x ^^^ 0x11b else x

structure GfTables where
  EXP : List Nat
  LOG : List Nat

/-- The first loop. -/
@[irreducible] def gfFilled : GfTables :=
  ((List.range 255).foldl
    (fun (s : GfTables × Nat) i => (⟨s.1.EXP.set i s.2, s.1.LOG.set s.2 i⟩, timesThree s.2))
    (⟨List.replicate 512 0, List.replicate 256 0⟩, 1)).1

/-- One step of the second loop. -/
def duplicate (EXP : List Nat) (i : Nat) : List Nat := EXP.set i (EXP.getD (i - 255) 0)

/-- The tables; the first powers stand in `EXP` again, so that `mul` can index it without a mod
255. -/
@[irreducible] def gfTables : GfTables :=
  { gfFilled with EXP := (List.range' 255 257).foldl duplicate gfFilled.EXP }

/-- `table[i]`. -/
def tableAt (table : List Nat) (i : Option Nat) : Option Nat := i.bind fun i => table[i]?

/-- `mul(a, b)`. -/
def gfMul (a b : Option Nat) : Option Nat :=
  if a = some 0 ∨ b = some 0 then some 0
  else
    match tableAt gfTables.LOG a, tableAt gfTables.LOG b with
    | some la, some lb => tableAt gfTables.EXP (some (la + lb))
    | _, _ => none

/-! ## Shares -/

/-- What JavaScript makes of a value that is no whole number. -/
structure JsIndexing (F : Type) where
  /-- The operand of a bitwise operator; an error when the conversion throws. -/
  toInt32 : Json F → Except String (BitVec 32)
  /-- The entry that `table[v]` reads. -/
  toIndex : Json F → Option Nat

namespace JsIndexing

variable (J : JsIndexing F)

def int32 : Json F → Except String (BitVec 32)
  | .int n => .ok (BitVec.ofInt 32 n)
  | v => J.toInt32 v

def index : Json F → Option Nat
  | .int n => if 0 ≤ n then some n.toNat else none
  | v => J.toIndex v

end JsIndexing

/-- A result of a bitwise operator as an index. -/
def indexOfInt32 (b : BitVec 32) : Option Nat := if b.toNat < 2 ^ 31 then some b.toNat else none

structure ShamirShare (F : Type) where
  x : Json F
  data : Bytes

section Combine

variable [JsNumber F] (J : JsIndexing F)

/-- `div(a, b)`. -/
def gfDiv (a : Json F) (b : Option Nat) : Except String (Option Nat) :=
  if b = some 0 then .error "GF(256) division by zero"
  else if a.strictEq (.int 0) then .ok (some 0)
  else
    match tableAt gfTables.LOG (J.index a), tableAt gfTables.LOG b with
    | some la, some lb => .ok (tableAt gfTables.EXP (some (la + 255 - lb)))
    | _, _ => .ok none

/-- `mul(y, ca) ^ mul(z, cb)`. -/
def combineByte (ca cb : Option Nat) (y z : UInt8) : UInt8 :=
  UInt8.ofNat ((gfMul (some y.toNat) ca).getD 0 ^^^ (gfMul (some z.toNat) cb).getD 0)

/-- Reconstruct the secret from any two DISTINCT shares of one split. -/
def shamirCombine (a b : ShamirShare F) : Except String Bytes :=
  if a.x.strictEq b.x then .error "shamirCombine: shares must have distinct x"
  else if a.data.length ≠ b.data.length then .error "shamirCombine: length mismatch"
  else do
    let ax ← J.int32 a.x
    let bx ← J.int32 b.x
    let denom := indexOfInt32 (ax ^^^ bx)
    let ca ← gfDiv J b.x denom
    let cb ← gfDiv J a.x denom
    return List.zipWith (combineByte ca cb) a.data b.data

end Combine

/-- `secret[i] ^ mul(r[i], x)`. -/
def shareByte (x : Nat) (s r : UInt8) : UInt8 :=
  UInt8.ofNat (s.toNat ^^^ (gfMul (some r.toNat) (some x)).getD 0)

/-- The y-values of the share `x`; `r` has the random bytes of the split. -/
def shareData (secret r : Bytes) (x : Nat) : Bytes := List.zipWith (shareByte x) secret r

/-- Split `secret` into `n` shares (x = 1..n), any 2 of which reconstruct it. -/
def shamirSplit (secret r : Bytes) (n : Nat) : Except String (List (ShamirShare F)) :=
  if n < 2 ∨ 255 < n then .error "shamirSplit: n must be 2..255"
  else .ok ((List.range' 1 n).map fun (x : Nat) => ⟨.int x, shareData secret r x⟩)

/-! ## The tables are logarithms -/

theorem timesThree_xor (a b : Nat) : timesThree (a ^^^ b) = timesThree a ^^^ timesThree b := by
  -- whether a word is reduced depends on one bit, which is linear too
  have hreduce : ∀ y z : Nat,
      (if (y ^^^ z) &&& 0x100 ≠ 0 then (y ^^^ z) ^^^ 0x11b else y ^^^ z) =
        (if y &&& 0x100 ≠ 0 then y ^^^ 0x11b else y) ^^^
          (if z &&& 0x100 ≠ 0 then z ^^^ 0x11b else z) := by
    have hbit : ∀ y : Nat, y &&& 0x100 = 0 ∨ y &&& 0x100 = 0x100 := by
      intro y
      have hpow : y &&& 2 ^ 8 = (y.testBit 8).toNat * 2 ^ 8 := Nat.and_two_pow y 8
      cases hbit8 : y.testBit 8 with
      | false => exact .inl (hpow.trans (by rw [hbit8]; rfl))
      | true => exact .inr (hpow.trans (by rw [hbit8]; rfl))
    intro y z
    rw [Nat.and_xor_distrib_right]
    rcases hbit y with hy | hy <;> rcases hbit z with hz | hz <;>
      simp only [hy, hz, Nat.xor_self, Nat.zero_xor, Nat.xor_zero, ne_eq, not_true_eq_false,
        not_false_eq_true, if_true, if_false, OfNat.ofNat_ne_zero]
    · rw [Nat.xor_assoc]
    · rw [Nat.xor_assoc, Nat.xor_assoc, Nat.xor_comm z]
    · rw [Nat.xor_assoc, Nat.xor_comm z, ← Nat.xor_assoc 0x11b, Nat.xor_self, Nat.zero_xor]
  have hword : ((a ^^^ b) <<< 1) ^^^ (a ^^^ b) = ((a <<< 1) ^^^ a) ^^^ ((b <<< 1) ^^^ b) := by
    rw [Nat.shiftLeft_xor_distrib, Nat.xor_assoc, Nat.xor_assoc, ← Nat.xor_assoc (b <<< 1),
      Nat.xor_comm (b <<< 1), Nat.xor_assoc a]
  unfold timesThree
  simp only
  rw [hword]
  exact hreduce _ _

theorem timesThree_lt : ∀ a < 2 ^ 8, timesThree a < 2 ^ 8 := by decide +kernel

/-- The words of a list, as the bits of one number. -/
def wordBits : List Nat → Nat
  | [] => 0
  | w :: rest => 2 ^ w ||| wordBits rest

theorem mem_of_testBit_wordBits {l : List Nat} {a : Nat} (h : (wordBits l).testBit a = true) :
    a ∈ l := by
  induction l with
  | nil =>
    rw [wordBits, Nat.zero_testBit] at h
    cases h
  | cons w rest ih =>
    rw [wordBits, Nat.testBit_or, Bool.or_eq_true, Nat.testBit_two_pow, decide_eq_true_eq] at h
    rcases h with rfl | h
    · exact List.mem_cons_self
    · exact List.mem_cons_of_mem _ (ih h)

theorem mem_powers {a : Nat} (h : a < 2 ^ 8) (hne : a ≠ 0) :
    a ∈ List.iterate timesThree 1 255 := by
  have hbits : wordBits (List.iterate timesThree 1 255) = 2 ^ 256 - (1 + 1) := by decide +kernel
  have hone : Nat.testBit 1 a = false := by
    rw [← Nat.pow_zero 2, Nat.testBit_two_pow, decide_eq_false_iff_not]
    exact fun h => hne h.symm
  refine mem_of_testBit_wordBits ?_
  rw [hbits, Nat.testBit_two_pow_sub_succ (by decide), hone, Bool.not_false, Bool.and_true,
    decide_eq_true_eq]
  exact h

theorem power_lt (k : Nat) : timesThree^[k] 1 < 2 ^ 8 := by
  induction k with
  | zero => decide
  | succ k ih =>
    rw [Function.iterate_succ_apply']
    exact timesThree_lt _ ih

/-- One step of the first loop. -/
def fill (s : GfTables × Nat) (i : Nat) : GfTables × Nat :=
  (⟨s.1.EXP.set i s.2, s.1.LOG.set s.2 i⟩, timesThree s.2)

/-- What the first `k` steps leave: the powers, and a logarithm of each of them. -/
structure Filled (k : Nat) (s : GfTables × Nat) : Prop where
  next : s.2 = timesThree^[k] 1
  length_EXP : s.1.EXP.length = 512
  EXP_at : ∀ j < k, s.1.EXP[j]? = some (timesThree^[j] 1)
  length_LOG : s.1.LOG.length = 256
  LOG_le : ∀ l ∈ s.1.LOG, l ≤ k - 1
  LOG_at : ∀ j < k, ∃ l, s.1.LOG[timesThree^[j] 1]? = some l ∧ timesThree^[l] 1 = timesThree^[j] 1

theorem Filled.step {k : Nat} {s : GfTables × Nat} (h : Filled k s) (hk : k < 512) :
    Filled (k + 1) (fill s k) where
  next := by
    rw [Function.iterate_succ_apply', ← h.next]
    rfl
  length_EXP := (List.length_set ..).trans h.length_EXP
  EXP_at j hj := by
    show (s.1.EXP.set k s.2)[j]? = _
    rw [List.getElem?_set]
    split
    case isTrue heq =>
      rw [if_pos (by rw [h.length_EXP]; exact hk), h.next, heq]
    case isFalse hne => exact h.EXP_at j (by omega)
  length_LOG := (List.length_set ..).trans h.length_LOG
  LOG_le l hl := by
    rcases List.mem_or_eq_of_mem_set hl with hold | rfl
    · exact (h.LOG_le l hold).trans (by omega)
    · exact Nat.le_refl _
  LOG_at j hj := by
    show ∃ l, (s.1.LOG.set s.2 k)[timesThree^[j] 1]? = some l ∧ _
    rw [List.getElem?_set]
    split
    case isTrue heq =>
      have hlt : s.2 < s.1.LOG.length := by
        rw [h.length_LOG, h.next]
        exact power_lt k
      rw [if_pos hlt]
      exact ⟨k, rfl, h.next.symm.trans heq⟩
    case isFalse hne =>
      have hjk : j ≠ k := by
        rintro rfl
        exact hne h.next
      exact h.LOG_at j (by omega)

theorem filled_foldl (k : Nat) (hk : k ≤ 512) : Filled k ((List.range k).foldl fill
    (⟨List.replicate 512 0, List.replicate 256 0⟩, 1)) := by
  induction k with
  | zero =>
    refine ⟨rfl, List.length_replicate, fun j hj => absurd hj (Nat.not_lt_zero j),
      List.length_replicate, fun l hl => ?_, fun j hj => absurd hj (Nat.not_lt_zero j)⟩
    rw [List.eq_of_mem_replicate hl]
  | succ k ih =>
    rw [List.range_succ, List.foldl_concat]
    exact (ih (Nat.le_of_succ_le hk)).step hk

theorem gfFilled_eq_foldl : gfFilled = ((List.range 255).foldl fill
    (⟨List.replicate 512 0, List.replicate 256 0⟩, 1)).1 := by
  unfold gfFilled
  rfl

theorem filled_gfFilled : ∃ x, Filled 255 (gfFilled, x) := by
  have h := filled_foldl 255 (by decide)
  rw [gfFilled_eq_foldl]
  generalize (List.range 255).foldl fill _ = s at h ⊢
  exact ⟨s.2, h⟩

theorem timesThree_order : timesThree^[255] 1 = 1 := by decide +kernel

theorem EXP_after {k : Nat} (hk : k ≤ 257) :
    ((List.range' 255 k).foldl duplicate gfFilled.EXP).length = 512 ∧
      ∀ j < 255 + k, ((List.range' 255 k).foldl duplicate gfFilled.EXP)[j]? =
        some (timesThree^[j] 1) := by
  obtain ⟨x, hfilled⟩ := filled_gfFilled
  induction k with
  | zero => exact ⟨hfilled.length_EXP, hfilled.EXP_at⟩
  | succ k ih =>
    obtain ⟨hbefore, hpowers⟩ := ih (Nat.le_of_succ_le hk)
    rw [List.range'_1_concat, List.foldl_concat]
    generalize (List.range' 255 k).foldl duplicate gfFilled.EXP = EXP at hbefore hpowers
    unfold duplicate
    refine ⟨(List.length_set ..).trans hbefore, fun j hj => ?_⟩
    rw [List.getElem?_set]
    split
    · rename_i hj
      subst hj
      rw [if_pos (by omega), List.getD_eq_getElem?_getD, hpowers _ (by omega),
        Option.getD_some, Nat.add_sub_cancel_left, Nat.add_comm, Function.iterate_add_apply,
        timesThree_order]
    · exact hpowers j (by omega)

theorem EXP_at {n : Nat} (h : n < 512) : gfTables.EXP[n]? = some (timesThree^[n] 1) := by
  obtain ⟨-, hpowers⟩ := EXP_after (Nat.le_refl 257)
  unfold gfTables
  dsimp only
  rw [hpowers n (by omega)]

theorem LOG_at {a : Nat} (h : a < 256) : ∃ l, gfTables.LOG[a]? = some l ∧ l ≤ 254 ∧
    (a ≠ 0 → timesThree^[l] 1 = a) := by
  obtain ⟨x, hfilled⟩ := filled_gfFilled
  have ha : a < gfFilled.LOG.length := hfilled.length_LOG ▸ h
  unfold gfTables
  refine ⟨gfFilled.LOG[a], List.getElem?_eq_getElem ha,
    hfilled.LOG_le _ (List.getElem_mem ha), fun hne => ?_⟩
  obtain ⟨j, hj, hpower⟩ := List.getElem_of_mem (mem_powers h hne)
  rw [List.getElem_iterate] at hpower
  rw [List.length_iterate] at hj
  obtain ⟨l, hl, hlog⟩ := hfilled.LOG_at j hj
  rw [hpower, List.getElem?_eq_getElem ha, Option.some_inj] at hl
  rw [hl, hlog, hpower]

/-- The field that the tables describe. -/
def gf256 : LogTable where
  bits := 8
  gen := timesThree
  order := 255
  log a := gfTables.LOG.getD a 0
  bits_pos := by decide
  order_pos := by decide
  gen_lt := timesThree_lt
  gen_xor := timesThree_xor
  gen_order := timesThree_order
  log_le a h := by
    obtain ⟨l, hl, hle, -⟩ := LOG_at h
    rw [List.getD_eq_getElem?_getD, hl]
    exact Nat.le_succ_of_le hle
  gen_log a h hne := by
    obtain ⟨l, hl, -, hlog⟩ := LOG_at h
    rw [List.getD_eq_getElem?_getD, hl]
    exact hlog hne

theorem tableAt_some (table : List Nat) (i : Nat) : tableAt table (some i) = table[i]? := rfl

theorem gf256_log (a : Nat) : gf256.log a = gfTables.LOG.getD a 0 := rfl

theorem tableAt_LOG (a : gf256.Word) :
    tableAt gfTables.LOG (some a.val) = some (gf256.log a.val) := by
  obtain ⟨l, hl, -⟩ := LOG_at a.property
  rw [tableAt_some, gf256_log, List.getD_eq_getElem?_getD, hl, Option.getD_some]

theorem tableAt_EXP {n : Nat} (h : n < 512) :
    tableAt gfTables.EXP (some n) = some (LogTable.power n : gf256.Word).val := by
  rw [tableAt_some, EXP_at h, LogTable.val_power]
  rfl

/-! ## The operations are those of the field -/

theorem gfMul_eq (a b : gf256.Word) : gfMul (some a.val) (some b.val) = some (a * b).val := by
  unfold gfMul
  by_cases hzero : a = 0 ∨ b = 0
  · have hval : some a.val = some 0 ∨ some b.val = some 0 := by
      refine hzero.imp ?_ ?_ <;> (rintro rfl; rfl)
    rw [if_pos hval]
    rcases hzero with rfl | rfl
    · rw [zero_mul]
      rfl
    · rw [mul_zero]
      rfl
  · obtain ⟨ha, hb⟩ := not_or.mp hzero
    have hval : ¬ (some a.val = some 0 ∨ some b.val = some 0) := by
      rintro (h | h)
      · exact LogTable.Word.val_ne_zero ha (Option.some.inj h)
      · exact LogTable.Word.val_ne_zero hb (Option.some.inj h)
    rw [if_neg hval, tableAt_LOG, tableAt_LOG]
    have hla := gf256.log_le a.val a.property
    have hlb := gf256.log_le b.val b.property
    simp only
    rw [tableAt_EXP (Nat.lt_of_le_of_lt (Nat.add_le_add hla hlb) (by decide)),
      LogTable.Word.mul_of_ne ha hb]

theorem gfDiv_eq [JsNumber F] (J : JsIndexing F) {a b : gf256.Word} (ha : a ≠ 0) (hb : b ≠ 0) :
    gfDiv J (.int a.val) (some b.val) = .ok (some (a / b).val) := by
  have hbval : ¬ some b.val = some 0 := fun h => LogTable.Word.val_ne_zero hb (Option.some.inj h)
  have haval : Json.strictEq (.int a.val : Json F) (.int 0) = false := by
    show ((a.val : Int) == 0) = false
    rw [beq_eq_false_iff_ne]
    exact_mod_cast LogTable.Word.val_ne_zero ha
  have hindex : J.index (.int a.val) = some a.val := by
    show (if (0 : Int) ≤ a.val then some (a.val : Int).toNat else none) = some a.val
    rw [if_pos (Int.natCast_nonneg _), Int.toNat_natCast]
  unfold gfDiv
  rw [if_neg hbval, haval, hindex, tableAt_LOG, tableAt_LOG]
  have hla := gf256.log_le a.val a.property
  simp only [Bool.false_eq_true, if_false]
  rw [tableAt_EXP (by change gf256.log a.val ≤ 255 at hla; omega), LogTable.Word.div_of_ne ha hb]
  rfl

/-! ## Any two shares of a split reconstruct the secret -/

/-- A byte as a word. -/
def byteWord (b : UInt8) : gf256.Word := ⟨b.toNat, b.toNat_lt⟩

theorem ofNat_val_byteWord (b : UInt8) : UInt8.ofNat (byteWord b).val = b := UInt8.ofNat_toNat

theorem byteWord_ofNat (a : gf256.Word) : byteWord (UInt8.ofNat a.val) = a :=
  Subtype.ext (UInt8.toNat_ofNat_of_lt' a.property)

theorem byteWord_shareByte (s r : UInt8) (x : gf256.Word) :
    byteWord (shareByte x.val s r) = byteWord s + byteWord r * x := by
  have hvalue : shareByte x.val s r = UInt8.ofNat (byteWord s + byteWord r * x).val := by
    unfold shareByte
    rw [show (r.toNat : Nat) = (byteWord r).val from rfl, gfMul_eq]
    rfl
  rw [hvalue, byteWord_ofNat]

theorem combineByte_shares (s r : UInt8) {x y : gf256.Word} (h : x ≠ y) :
    combineByte (some (y / (x + y)).val) (some (x / (x + y)).val) (shareByte x.val s r)
      (shareByte y.val s r) = s := by
  unfold combineByte
  rw [show (shareByte x.val s r).toNat = (byteWord (shareByte x.val s r)).val from rfl,
    show (shareByte y.val s r).toNat = (byteWord (shareByte y.val s r)).val from rfl, gfMul_eq,
    gfMul_eq, byteWord_shareByte, byteWord_shareByte]
  have hline := LogTable.Word.line_at_zero (byteWord s) (byteWord r) h
  calc UInt8.ofNat ((((byteWord s + byteWord r * x) * (y / (x + y))).val) ^^^
        ((byteWord s + byteWord r * y) * (x / (x + y))).val)
      = UInt8.ofNat ((byteWord s + byteWord r * x) * (y / (x + y)) +
          (byteWord s + byteWord r * y) * (x / (x + y))).val := rfl
    _ = UInt8.ofNat (byteWord s).val := by rw [hline]
    _ = s := ofNat_val_byteWord s

theorem length_shareData {secret r : Bytes} (hr : r.length = secret.length) (x : Nat) :
    (shareData secret r x).length = secret.length := by
  rw [shareData, List.length_zipWith, hr, Nat.min_self]

theorem zipWith_combineByte {x y : gf256.Word} (h : x ≠ y) :
    ∀ {secret r : Bytes}, r.length = secret.length →
      List.zipWith (combineByte (some (y / (x + y)).val) (some (x / (x + y)).val))
        (shareData secret r x.val) (shareData secret r y.val) = secret := by
  intro secret
  induction secret with
  | nil => exact fun _ => rfl
  | cons s rest ih =>
    intro r hr
    cases r with
    | nil => cases hr
    | cons b later =>
      have hrest := ih (Nat.succ.inj hr)
      show combineByte _ _ (shareByte x.val s b) (shareByte y.val s b) :: _ = s :: rest
      rw [combineByte_shares s b h]
      exact congrArg (s :: ·) hrest

/-- A coordinate of a split as a word. -/
def coordinate (x : Nat) (h : x < 256) : gf256.Word := ⟨x, h⟩

theorem coordinate_ne_zero {x : Nat} (h : x < 256) (hpos : 0 < x) : coordinate x h ≠ 0 :=
  fun heq => hpos.ne' (congrArg Subtype.val heq)

theorem coordinate_ne {x y : Nat} (hx : x < 256) (hy : y < 256) (h : x ≠ y) :
    coordinate x hx ≠ coordinate y hy := fun heq => h (congrArg Subtype.val heq)

theorem coordinate_add_ne_zero {x y : Nat} (hx : x < 256) (hy : y < 256) (h : x ≠ y) :
    coordinate x hx + coordinate y hy ≠ 0 := by
  rw [← LogTable.Word.sub_eq_add]
  exact sub_ne_zero.mpr (coordinate_ne hx hy h)

theorem indexOfInt32_xor {x y : Nat} (hx : x < 256) (hy : y < 256) :
    indexOfInt32 (BitVec.ofInt 32 x ^^^ BitVec.ofInt 32 y) =
      some (coordinate x hx + coordinate y hy).val := by
  have hlt := (coordinate x hx + coordinate y hy).property
  have hvalue : (BitVec.ofInt 32 x ^^^ BitVec.ofInt 32 y).toNat =
      (coordinate x hx + coordinate y hy).val := by
    rw [BitVec.ofInt_natCast, BitVec.ofInt_natCast, BitVec.toNat_xor, BitVec.toNat_ofNat,
      BitVec.toNat_ofNat, Nat.mod_eq_of_lt (by omega), Nat.mod_eq_of_lt (by omega)]
    rfl
  unfold indexOfInt32
  rw [hvalue, if_pos (Nat.lt_trans hlt (by decide))]

theorem shamirCombine_shares [JsNumber F] (J : JsIndexing F) {secret r : Bytes}
    (hr : r.length = secret.length) {x y : Nat} (hx : 0 < x ∧ x < 256) (hy : 0 < y ∧ y < 256)
    (h : x ≠ y) :
    shamirCombine J ⟨.int x, shareData secret r x⟩ ⟨.int y, shareData secret r y⟩ =
      .ok secret := by
  have hsum := coordinate_add_ne_zero hx.2 hy.2 h
  have hstrict : Json.strictEq (.int x : Json F) (.int y) = false := by
    show ((x : Int) == (y : Int)) = false
    rw [beq_eq_false_iff_ne]
    exact_mod_cast h
  have hca : gfDiv J (.int y) (some (coordinate x hx.2 + coordinate y hy.2).val) = _ :=
    gfDiv_eq J (coordinate_ne_zero hy.2 hy.1) hsum
  have hcb : gfDiv J (.int x) (some (coordinate x hx.2 + coordinate y hy.2).val) = _ :=
    gfDiv_eq J (coordinate_ne_zero hx.2 hx.1) hsum
  unfold shamirCombine
  rw [hstrict, length_shareData hr, length_shareData hr]
  simp only [Bool.false_eq_true, if_false, ne_eq, not_true_eq_false, JsIndexing.int32]
  show (gfDiv J (.int y) (indexOfInt32 _) >>= fun ca => gfDiv J (.int x) (indexOfInt32 _) >>=
    fun cb => Except.ok (List.zipWith (combineByte ca cb) _ _)) = _
  rw [indexOfInt32_xor hx.2 hy.2, hca]
  show (gfDiv J (.int x) (some (coordinate x hx.2 + coordinate y hy.2).val) >>= fun cb =>
    Except.ok (List.zipWith (combineByte _ cb) _ _)) = _
  rw [hcb]
  exact congrArg Except.ok (zipWith_combineByte (coordinate_ne hx.2 hy.2 h) hr)

theorem mem_shamirSplit {secret r : Bytes} {n : Nat} {shares : List (ShamirShare F)}
    (h : shamirSplit secret r n = .ok shares) {share : ShamirShare F} (hshare : share ∈ shares) :
    ∃ x : Nat, (0 < x ∧ x < 256) ∧ share = ⟨.int x, shareData secret r x⟩ := by
  unfold shamirSplit at h
  split at h
  · cases h
  · cases h
    obtain ⟨x, hx, rfl⟩ := List.mem_map.mp hshare
    rw [List.mem_range'_1] at hx
    exact ⟨x, by omega, rfl⟩

end NeuronWeb
