/-
  Transparent: concrete primitives without collisions.

  The digest is the input behind a zero, and of a block's content the account and the height are
  encoded, which is all that the collision-freeness of the development asks for. Closed theorems
  that need it run on these.
-/
import NeuronWeb.Sample
import NeuronWeb.Core.SignedContent

set_option autoImplicit false

namespace NeuronWeb.Sample

/-- The account and the height that a block's content shows. -/
def headerBytes : Json Rat → Bytes
  | .obj fields =>
    match JsMap.find "accountId" fields, JsMap.find "index" fields with
    | some (.str accountId), some (.int index) =>
      List.replicate index.toNat 1 ++ 0 ::
        (List.replicate (-index).toNat 1 ++ 0 :: utf8ToBytes accountId)
    | _, _ => []
  | _ => []

/-- Sample primitives that hash nothing away: a digest is the input behind a zero. -/
def transparent : Primitives Rat :=
  { primitives with sha256 := fun b => 0 :: b, encodeJson := headerBytes }

theorem headerBytes_canonicalContent (c : BlockContent Rat) :
    headerBytes (canonicalContent c).sortValue =
      List.replicate c.index.toNat 1 ++ 0 ::
        (List.replicate (-c.index).toNat 1 ++ 0 :: utf8ToBytes c.accountId) := by
  simp [canonicalContent, Json.sortValue, headerBytes, Json.find_sortFields, JsMap.find]

theorem replicate_inj {n m : Nat} {r r' : Bytes}
    (h : List.replicate n (1 : UInt8) ++ 0 :: r = List.replicate m 1 ++ 0 :: r') :
    n = m ∧ r = r' := by
  have hzero : ∀ k, (0 : UInt8) ∉ List.replicate k 1 := by
    intro k hmem
    exact absurd (List.eq_of_mem_replicate hmem) (by decide)
  obtain ⟨hones, hrest⟩ := Text.field_inj (hzero n) (hzero m) h
  exact ⟨by simpa using congrArg List.length hones, hrest⟩

theorem collisionFree_transparent : CollisionFree transparent where
  sha256_injective b b' h := (List.cons.inj h).2
  sha256_ne_nil b := List.cons_ne_nil 0 b
  encode_header c c' h := by
    simp only [transparent, headerBytes_canonicalContent] at h
    obtain ⟨hpos, hrest⟩ := replicate_inj h
    obtain ⟨hneg, haccount⟩ := replicate_inj hrest
    exact ⟨utf8ToBytes_injective haccount, by omega⟩

/-! ## A faithful encoding -/

/-- A counter in unary notation. -/
def natCode (n : Nat) : Bytes := List.replicate n 1 ++ [0]

def intCode (i : Int) : Bytes := natCode i.toNat ++ natCode (-i).toNat

/-- A text behind its length. -/
def textCode (s : String) : Bytes := natCode (utf8ToBytes s).length ++ utf8ToBytes s

mutual

def code : Json Rat → Bytes
  | .null => [0]
  | .bool b => [1, if b then 1 else 0]
  | .int n => 2 :: intCode n
  | .num x => 3 :: (intCode x.num ++ natCode x.den)
  | .str s => 4 :: textCode s
  | .arr items => 5 :: codeItems items
  | .obj fields => 6 :: codeFields fields

def codeItems : List (Json Rat) → Bytes
  | [] => [0]
  | v :: rest => 1 :: (code v ++ codeItems rest)

def codeFields : List (String × Json Rat) → Bytes
  | [] => [0]
  | (key, v) :: rest => 1 :: (textCode key ++ (code v ++ codeFields rest))

end

theorem natCode_inj {n m : Nat} {r r' : Bytes} (h : natCode n ++ r = natCode m ++ r') :
    n = m ∧ r = r' := by
  simp only [natCode, List.append_assoc, List.singleton_append] at h
  exact replicate_inj h

theorem intCode_inj {i j : Int} {r r' : Bytes} (h : intCode i ++ r = intCode j ++ r') :
    i = j ∧ r = r' := by
  simp only [intCode, List.append_assoc] at h
  obtain ⟨hpos, h⟩ := natCode_inj h
  obtain ⟨hneg, h⟩ := natCode_inj h
  exact ⟨by omega, h⟩

theorem textCode_inj {s t : String} {r r' : Bytes} (h : textCode s ++ r = textCode t ++ r') :
    s = t ∧ r = r' := by
  simp only [textCode, List.append_assoc] at h
  obtain ⟨hlength, h⟩ := natCode_inj h
  obtain ⟨htext, h⟩ := List.append_inj h hlength
  exact ⟨utf8ToBytes_injective htext, h⟩

mutual

/-- A value is read back from the front of a byte string: its first byte tells the kind. -/
theorem code_inj : (v v' : Json Rat) → {r r' : Bytes} → code v ++ r = code v' ++ r' →
    v = v' ∧ r = r'
  | .null, v', r, r', h => by
    cases v' <;> simp [code] at h ⊢
    exact h
  | .bool b, v', r, r', h => by
    cases v' <;> simp [code] at h ⊢
    case bool b' => cases b <;> cases b' <;> simp at h ⊢ <;> exact h
  | .int n, v', r, r', h => by
    cases v' <;> simp [code] at h ⊢
    case int n' => exact intCode_inj h
  | .num x, v', r, r', h => by
    cases v' <;> simp [code] at h ⊢
    case num x' =>
      obtain ⟨hnum, h⟩ := intCode_inj h
      obtain ⟨hden, h⟩ := natCode_inj h
      exact ⟨Rat.ext hnum hden, h⟩
  | .str s, v', r, r', h => by
    cases v' <;> simp [code] at h ⊢
    case str s' => exact textCode_inj h
  | .arr items, v', r, r', h => by
    cases v' <;> simp [code] at h ⊢
    case arr items' => exact codeItems_inj items items' h
  | .obj fields, v', r, r', h => by
    cases v' <;> simp [code] at h ⊢
    case obj fields' => exact codeFields_inj fields fields' h

theorem codeItems_inj : (l l' : List (Json Rat)) → {r r' : Bytes} →
    codeItems l ++ r = codeItems l' ++ r' → l = l' ∧ r = r'
  | [], l', r, r', h => by
    cases l' <;> simp [codeItems] at h ⊢
    exact h
  | v :: rest, l', r, r', h => by
    cases l' <;> simp [codeItems] at h ⊢
    case cons v' rest' =>
      obtain ⟨hv, h⟩ := code_inj v v' h
      obtain ⟨hrest, h⟩ := codeItems_inj rest rest' h
      exact ⟨⟨hv, hrest⟩, h⟩

theorem codeFields_inj : (l l' : List (String × Json Rat)) → {r r' : Bytes} →
    codeFields l ++ r = codeFields l' ++ r' → l = l' ∧ r = r'
  | [], l', r, r', h => by
    cases l' <;> simp [codeFields] at h ⊢
    exact h
  | (key, v) :: rest, l', r, r', h => by
    cases l' <;> simp [codeFields] at h ⊢
    case cons e' rest' =>
      obtain ⟨key', v'⟩ := e'
      simp only at h
      obtain ⟨hkey, h⟩ := textCode_inj h
      obtain ⟨hv, h⟩ := code_inj v v' h
      obtain ⟨hrest, h⟩ := codeFields_inj rest rest' h
      exact ⟨⟨by rw [hkey, hv], hrest⟩, h⟩

end

/-- Sample primitives that hash nothing away and encode everything. -/
def serial : Primitives Rat := { transparent with encodeJson := code }

theorem sha256_serial_injective : Function.Injective serial.sha256 :=
  fun _ _ h => (List.cons.inj h).2

end NeuronWeb.Sample
