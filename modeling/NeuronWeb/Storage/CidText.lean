/-
  Storage/CidText: a CID tells apart what its digest tells apart (`computeCID` in
  `network/smoke-store.ts`).

  The CID is the digest behind four bytes, in base32: five bits a character, the highest first,
  and the last character padded with zeros.  Two digests give one text only when they are one
  (`computeCID_injective`).
-/
import NeuronWeb.Storage.SmokeStore

set_option autoImplicit false

namespace NeuronWeb

variable {F : Type}

/-! ## Bits and their values -/

theorem bitsValue_append (bits : List Bool) (b : Bool) :
    bitsValue (bits ++ [b]) = 2 * bitsValue bits + b.toNat := by
  simp [bitsValue]

theorem bitsValue_lt (bits : List Bool) : bitsValue bits < 2 ^ bits.length := by
  induction bits using List.reverseRecOn with
  | nil => decide
  | append_singleton bits b ih =>
    have hbit := Bool.toNat_lt b
    rw [bitsValue_append, List.length_append, List.length_singleton, Nat.pow_succ]
    omega

theorem bitsValue_inj : ∀ {bits bits' : List Bool}, bits.length = bits'.length →
    bitsValue bits = bitsValue bits' → bits = bits' := by
  intro bits
  induction bits using List.reverseRecOn with
  | nil => intro bits' hlength _; exact (List.length_eq_zero_iff.mp hlength.symm).symm
  | append_singleton bits b ih =>
    intro bits' hlength hvalue
    rcases List.eq_nil_or_concat bits' with rfl | ⟨bits', b', rfl⟩
    · simp at hlength
    · rw [List.concat_eq_append] at hlength hvalue ⊢
      rw [bitsValue_append, bitsValue_append] at hvalue
      have hbit := Bool.toNat_lt b
      have hbit' := Bool.toNat_lt b'
      have hb : b = b' := by
        have hnat : b.toNat = b'.toNat := by omega
        cases b <;> cases b' <;> simp_all
      rw [hb, ih (by simpa using hlength) (by omega)]

/-! ## Base32 -/

theorem base32Digit_inj : ∀ m < 32, ∀ n < 32, base32Digit m = base32Digit n → m = n := by
  decide

theorem base32Chars_short {bits : List Bool} (hne : bits ≠ []) (hshort : bits.length < 5) :
    base32Chars bits = [base32Digit (bitsValue bits * 2 ^ (5 - bits.length))] := by
  rcases bits with _ | ⟨a, _ | ⟨b, _ | ⟨c, _ | ⟨d, _ | ⟨e, rest⟩⟩⟩⟩⟩
  · exact absurd rfl hne
  · rfl
  · rfl
  · rfl
  · rfl
  · simp only [List.length_cons] at hshort
    omega

theorem length_lt_five {bits : List Bool}
    (h : ∀ (a b c d e : Bool) (rest : List Bool), bits = a :: b :: c :: d :: e :: rest → False) :
    bits.length < 5 := by
  rcases bits with _ | ⟨a, _ | ⟨b, _ | ⟨c, _ | ⟨d, _ | ⟨e, rest⟩⟩⟩⟩⟩
  case cons.cons.cons.cons.cons => exact (h a b c d e rest rfl).elim
  all_goals simp

theorem length_base32Chars (bits : List Bool) :
    (base32Chars bits).length = (bits.length + 4) / 5 := by
  fun_induction base32Chars bits with
  | case1 => rfl
  | case2 a b c d e rest ih =>
    rw [List.length_cons, ih]
    simp only [List.length_cons]
    omega
  | case3 bits hne hlong =>
    have hpos := List.length_pos_of_ne_nil hne
    have hshort := length_lt_five hlong
    rw [List.length_singleton]
    omega

/-- Bit strings of one length are told apart by their characters. -/
theorem base32Chars_inj (bits : List Bool) : ∀ bits' : List Bool, bits.length = bits'.length →
    base32Chars bits = base32Chars bits' → bits = bits' := by
  fun_induction base32Chars bits with
  | case1 => intro bits' hlength _; exact (List.length_eq_zero_iff.mp hlength.symm).symm
  | case2 a b c d e rest ih =>
    intro bits' hlength hchars
    rcases bits' with _ | ⟨a', _ | ⟨b', _ | ⟨c', _ | ⟨d', _ | ⟨e', rest'⟩⟩⟩⟩⟩
    case cons.cons.cons.cons.cons =>
      rw [base32Chars] at hchars
      obtain ⟨hdigit, hrest⟩ := List.cons.inj hchars
      have hvalue := base32Digit_inj _ (bitsValue_lt [a, b, c, d, e]) _
        (bitsValue_lt [a', b', c', d', e']) hdigit
      have hfive := bitsValue_inj (by rfl) hvalue
      have hlater := ih rest' (by simpa using hlength) hrest
      simp only [List.cons.injEq, and_true] at hfive
      simp [hfive, hlater]
    all_goals
      simp only [List.length_cons, List.length_nil] at hlength
      omega
  | case3 bits hne hlong =>
    intro bits' hlength hchars
    have hshort := length_lt_five hlong
    have hne' : bits' ≠ [] := by
      intro hnil
      rw [hnil] at hlength
      exact hne (List.length_eq_zero_iff.mp hlength)
    rw [base32Chars_short hne' (hlength ▸ hshort), ← hlength] at hchars
    have hpad : ∀ l : List Bool, l.length = bits.length →
        bitsValue l * 2 ^ (5 - bits.length) < 32 := by
      intro l hl
      have hlt := bitsValue_lt l
      rw [hl] at hlt
      calc bitsValue l * 2 ^ (5 - bits.length)
          < 2 ^ bits.length * 2 ^ (5 - bits.length) :=
            Nat.mul_lt_mul_of_pos_right hlt (Nat.two_pow_pos _)
        _ = 2 ^ 5 := by rw [← Nat.pow_add, Nat.add_sub_cancel' (Nat.le_of_lt hshort)]
    have hdigit := base32Digit_inj _ (hpad bits rfl) _ (hpad bits' hlength.symm)
      (List.cons.inj hchars).1
    exact bitsValue_inj hlength (Nat.eq_of_mul_eq_mul_right (Nat.two_pow_pos _) hdigit)

/-! ## The bits of bytes, and CIDs -/

theorem bytesBits_cons (b : UInt8) (bytes : Bytes) :
    bytesBits (b :: bytes) = [7, 6, 5, 4, 3, 2, 1, 0].map b.toNat.testBit ++ bytesBits bytes :=
  rfl

theorem length_bytesBits (bytes : Bytes) : (bytesBits bytes).length = 8 * bytes.length := by
  induction bytes with
  | nil => rfl
  | cons b bytes ih =>
    rw [bytesBits_cons, List.length_append, ih, List.length_cons]
    simp only [List.length_map, List.length_cons, List.length_nil]
    omega

theorem byte_eq_of_bits {b b' : UInt8}
    (h : [7, 6, 5, 4, 3, 2, 1, 0].map b.toNat.testBit =
      [7, 6, 5, 4, 3, 2, 1, 0].map b'.toNat.testBit) : b = b' := by
  refine UInt8.toNat_inj.mp (Nat.eq_of_testBit_eq fun i => ?_)
  rcases Nat.lt_or_ge i 8 with hi | hi
  · have hbits := List.map_inj_left.mp h
    refine hbits i ?_
    simp only [List.mem_cons, List.not_mem_nil, or_false]
    omega
  · have hpow : 2 ^ 8 ≤ 2 ^ i := Nat.pow_le_pow_right (by decide) hi
    rw [Nat.testBit_lt_two_pow (Nat.lt_of_lt_of_le b.toNat_lt hpow),
      Nat.testBit_lt_two_pow (Nat.lt_of_lt_of_le b'.toNat_lt hpow)]

theorem bytesBits_injective : Function.Injective bytesBits := by
  intro bytes
  induction bytes with
  | nil =>
    intro bytes' h
    have hlength := congrArg List.length h
    rw [length_bytesBits, length_bytesBits] at hlength
    exact (List.length_eq_zero_iff.mp (by rw [List.length_nil] at hlength; omega)).symm
  | cons b bytes ih =>
    intro bytes' h
    cases bytes' with
    | nil =>
      have hlength := congrArg List.length h
      rw [length_bytesBits, length_bytesBits] at hlength
      simp at hlength
    | cons b' bytes' =>
      rw [bytesBits_cons, bytesBits_cons] at h
      obtain ⟨hbyte, hrest⟩ := List.append_inj h rfl
      rw [byte_eq_of_bits hbyte, ih hrest]

theorem computeCID_injective {P : Primitives F} (hP : Function.Injective P.sha256) :
    Function.Injective (computeCID P) := by
  intro data data' h
  have hchars := String.ofList_injective ((String.append_right_inj "b").mp h)
  have hlength := congrArg List.length hchars
  rw [length_base32Chars, length_base32Chars, length_bytesBits, length_bytesBits] at hlength
  have hbits := base32Chars_inj _ _ (by rw [length_bytesBits, length_bytesBits]; omega) hchars
  exact hP (List.append_inj (bytesBits_injective hbits) rfl).2

end NeuronWeb
