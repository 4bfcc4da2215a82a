/-
  Core/Base64: reading base64 back (`atob`).

  White space is skipped, and up to two signs of padding are dropped where the length is a
  multiple of four.  What `btoa` has written is read as it was (`atob_btoa`).
-/
import NeuronWeb.Core.AppKeys

set_option autoImplicit false

namespace NeuronWeb

/-- The six bits of a base64 character. -/
def base64Value (c : Char) : Option Nat :=
  if 'A' ≤ c ∧ c ≤ 'Z' then some (c.toNat - 65)
  else if 'a' ≤ c ∧ c ≤ 'z' then some (c.toNat - 71)
  else if '0' ≤ c ∧ c ≤ '9' then some (c.toNat + 4)
  else if c = '+' then some 62
  else if c = '/' then some 63
  else none

/-- The bytes of characters without padding. -/
def decodeBase64 : List Char → Option Bytes
  | [] => some []
  | [_] => none
  | [a, b] => do
    let w ← base64Value a
    let x ← base64Value b
    return [UInt8.ofNat (w * 4 + x / 16)]
  | [a, b, c] => do
    let w ← base64Value a
    let x ← base64Value b
    let y ← base64Value c
    return [UInt8.ofNat (w * 4 + x / 16), UInt8.ofNat (x % 16 * 16 + y / 4)]
  | a :: b :: c :: d :: rest => do
    let w ← base64Value a
    let x ← base64Value b
    let y ← base64Value c
    let z ← base64Value d
    let bytes ← decodeBase64 rest
    return UInt8.ofNat (w * 4 + x / 16) :: UInt8.ofNat (x % 16 * 16 + y / 4) ::
      UInt8.ofNat (y % 4 * 64 + z) :: bytes

/-- One or two signs of padding are dropped. -/
def stripPadding (cs : List Char) : List Char :=
  if cs.length % 4 = 0 then
    match cs.reverse with
    | '=' :: '=' :: rest => rest.reverse
    | '=' :: rest => rest.reverse
    | _ => cs
  else cs

/-- The white space of ASCII. -/
def asciiSpace (c : Char) : Bool := c ∈ ['\t', '\n', '\x0c', '\r', ' ']

/-- `atob`; `none` when it throws. -/
def atob (s : String) : Option Bytes :=
  decodeBase64 (stripPadding (s.toList.filter fun c => !asciiSpace c))

/-! ## What `btoa` has written -/

/-- The characters without their padding. -/
def base64Digits : Bytes → List Char
  | [] => []
  | [a] => [base64Digit (a.toNat / 4), base64Digit (a.toNat % 4 * 16)]
  | [a, b] =>
    [base64Digit (a.toNat / 4), base64Digit (a.toNat % 4 * 16 + b.toNat / 16),
      base64Digit (b.toNat % 16 * 4)]
  | a :: b :: c :: rest =>
    base64Digit (a.toNat / 4) :: base64Digit (a.toNat % 4 * 16 + b.toNat / 16) ::
      base64Digit (b.toNat % 16 * 4 + c.toNat / 64) :: base64Digit (c.toNat % 64) ::
        base64Digits rest

theorem base64Value_digit : ∀ n < 64, base64Value (base64Digit n) = some n := by decide

theorem base64Digit_plain :
    ∀ n < 64, base64Digit n ≠ '=' ∧ asciiSpace (base64Digit n) = false := by decide

theorem base64Chars_eq (bytes : Bytes) :
    base64Chars bytes = base64Digits bytes ++ List.replicate ((3 - bytes.length % 3) % 3) '=' := by
  fun_induction base64Digits bytes with
  | case1 => rfl
  | case2 a => rfl
  | case3 a b => rfl
  | case4 a b c rest ih =>
    have hlength : (a :: b :: c :: rest).length % 3 = rest.length % 3 := by
      simp only [List.length_cons]
      omega
    rw [base64Chars, ih, hlength]
    rfl

theorem length_base64Chars (bytes : Bytes) : (base64Chars bytes).length % 4 = 0 := by
  fun_induction base64Chars bytes with
  | case1 => rfl
  | case2 a => simp
  | case3 a b => simp
  | case4 a b c rest ih =>
    simp only [List.length_cons]
    omega

theorem mem_base64Digits {bytes : Bytes} {c : Char} (h : c ∈ base64Digits bytes) :
    c ≠ '=' ∧ asciiSpace c = false := by
  fun_induction base64Digits bytes with
  | case1 => simp at h
  | case2 a =>
    have ha := a.toNat_lt
    simp only [List.mem_cons, List.not_mem_nil, or_false] at h
    rcases h with rfl | rfl
    · exact base64Digit_plain _ (by omega)
    · exact base64Digit_plain _ (by omega)
  | case3 a b =>
    have ha := a.toNat_lt
    have hb := b.toNat_lt
    simp only [List.mem_cons, List.not_mem_nil, or_false] at h
    rcases h with rfl | rfl | rfl
    · exact base64Digit_plain _ (by omega)
    · exact base64Digit_plain _ (by omega)
    · exact base64Digit_plain _ (by omega)
  | case4 a b c' rest ih =>
    have ha := a.toNat_lt
    have hb := b.toNat_lt
    have hc := c'.toNat_lt
    simp only [List.mem_cons] at h
    rcases h with rfl | rfl | rfl | rfl | h
    · exact base64Digit_plain _ (by omega)
    · exact base64Digit_plain _ (by omega)
    · exact base64Digit_plain _ (by omega)
    · exact base64Digit_plain _ (by omega)
    · exact ih h

theorem stripPadding_base64Chars (bytes : Bytes) :
    stripPadding (base64Chars bytes) = base64Digits bytes := by
  have hhead : ∀ c ∈ (base64Digits bytes).reverse, c ≠ '=' :=
    fun c hc => (mem_base64Digits (List.mem_reverse.mp hc)).1
  rw [stripPadding, if_pos (length_base64Chars bytes), base64Chars_eq]
  have hpad : (3 - bytes.length % 3) % 3 = 0 ∨ (3 - bytes.length % 3) % 3 = 1 ∨
      (3 - bytes.length % 3) % 3 = 2 := by omega
  rcases hpad with hpad | hpad | hpad
  · rw [hpad, List.replicate_zero, List.append_nil]
    cases hreverse : (base64Digits bytes).reverse with
    | nil => rfl
    | cons c rest =>
      have hc := hhead c (hreverse ▸ List.mem_cons_self)
      simp [hc]
  · rw [hpad, List.reverse_append]
    cases hreverse : (base64Digits bytes).reverse with
    | nil => simp [List.reverse_eq_nil_iff.mp hreverse]
    | cons c rest =>
      have hc := hhead c (hreverse ▸ List.mem_cons_self)
      have hback : base64Digits bytes = (c :: rest).reverse := by
        rw [← hreverse, List.reverse_reverse]
      simp [hc, hback]
  · rw [hpad, List.reverse_append]
    simp [List.replicate_succ]

theorem decodeBase64_digits (bytes : Bytes) : decodeBase64 (base64Digits bytes) = some bytes := by
  fun_induction base64Digits bytes with
  | case1 => rfl
  | case2 a =>
    have ha := a.toNat_lt
    have hsum : a.toNat / 4 * 4 + a.toNat % 4 * 16 / 16 = a.toNat := by omega
    rw [decodeBase64, base64Value_digit _ (by omega), base64Value_digit _ (by omega)]
    simp only [Option.bind_eq_bind, Option.bind_some, Option.pure_def, hsum,
      UInt8.ofNat_toNat]
  | case3 a b =>
    have ha := a.toNat_lt
    have hb := b.toNat_lt
    have hfirst : a.toNat / 4 * 4 + (a.toNat % 4 * 16 + b.toNat / 16) / 16 = a.toNat := by omega
    have hsecond : (a.toNat % 4 * 16 + b.toNat / 16) % 16 * 16 + b.toNat % 16 * 4 / 4 =
        b.toNat := by omega
    rw [decodeBase64, base64Value_digit _ (by omega), base64Value_digit _ (by omega),
      base64Value_digit _ (by omega)]
    simp only [Option.bind_eq_bind, Option.bind_some, Option.pure_def, hfirst, hsecond,
      UInt8.ofNat_toNat]
  | case4 a b c rest ih =>
    have ha := a.toNat_lt
    have hb := b.toNat_lt
    have hc := c.toNat_lt
    have hfirst : a.toNat / 4 * 4 + (a.toNat % 4 * 16 + b.toNat / 16) / 16 = a.toNat := by omega
    have hsecond : (a.toNat % 4 * 16 + b.toNat / 16) % 16 * 16 +
        (b.toNat % 16 * 4 + c.toNat / 64) / 4 = b.toNat := by omega
    have hthird : (b.toNat % 16 * 4 + c.toNat / 64) % 4 * 64 + c.toNat % 64 = c.toNat := by
      omega
    rw [decodeBase64, base64Value_digit _ (by omega), base64Value_digit _ (by omega),
      base64Value_digit _ (by omega), base64Value_digit _ (by omega), ih]
    simp only [Option.bind_eq_bind, Option.bind_some, Option.pure_def, hfirst, hsecond, hthird,
      UInt8.ofNat_toNat]

theorem atob_btoa (bytes : Bytes) : atob (btoa bytes) = some bytes := by
  have hplain : (base64Chars bytes).filter (fun c => !asciiSpace c) = base64Chars bytes := by
    refine List.filter_eq_self.mpr fun c hc => ?_
    rw [base64Chars_eq, List.mem_append] at hc
    rcases hc with hc | hc
    · simp [(mem_base64Digits hc).2]
    · rw [List.eq_of_mem_replicate hc]
      rfl
  rw [atob, btoa, String.toList_ofList, hplain, stripPadding_base64Chars, decodeBase64_digits]

theorem btoa_ne_empty {bytes : Bytes} (h : bytes ≠ []) : btoa bytes ≠ "" := by
  intro hempty
  have hread := atob_btoa bytes
  rw [hempty] at hread
  exact h (Option.some.inj hread).symm

end NeuronWeb
