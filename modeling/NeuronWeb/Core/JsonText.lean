/-
  Core/JsonText: JSON as text (`JSON.stringify`, `JSON.parse`).

  A number stands for itself as the text that `String` gives it: two finite numbers have one
  text only when they are equal, and a number is finite exactly when its text is a JSON
  numeral.  What `JSON.stringify` writes, `JSON.parse` reads back.
-/
import NeuronWeb.Core.Hash
import NeuronWeb.Foundation.CharClass

set_option autoImplicit false

namespace NeuronWeb.JsonText

open RegularExpression CharClass

/-- A JSON value whose numbers are texts. -/
abbrev Value := Json String

/-! ## Numerals -/

def DIGIT : List Char := "0123456789".toList

/-- `0|[1-9][0-9]*`. -/
def WHOLE : RegularExpression Char :=
  char '0' + oneOf "123456789".toList * star (oneOf DIGIT)

/-- `-?(0|[1-9][0-9]*)(\.[0-9]+)?([eE][+-]?[0-9]+)?`. -/
def NUMERAL : RegularExpression Char :=
  optional (char '-') * WHOLE * optional (char '.' * (oneOf DIGIT * star (oneOf DIGIT))) *
    optional (oneOf "eE".toList * optional (oneOf "+-".toList) *
      (oneOf DIGIT * star (oneOf DIGIT)))

def isNumeral (text : String) : Bool := NUMERAL.rmatch text.toList

theorem forall_mem_of_all {α : Type} {l : List α} {Q : α → Prop} [DecidablePred Q]
    (h : l.all (fun a => decide (Q a)) = true) : ∀ a ∈ l, Q a :=
  fun a ha => of_decide_eq_true (List.all_eq_true.mp h a ha)

/-- The characters of numerals. -/
def numeralChar (c : Char) : Bool := c ∈ "-.+eE0123456789".toList

theorem numeralChar_of_isNumeral {text : String} (h : isNumeral text = true) :
    ∀ c ∈ text.toList, numeralChar c = true := by
  have hsub : ∀ c ∈ letters NUMERAL, numeralChar c = true := forall_mem_of_all (by decide)
  intro c hc
  exact hsub c (mem_letters_of_rmatch h c hc)

theorem isNumeral_ne_nil {text : String} (h : isNumeral text = true) : text.toList ≠ [] := by
  intro hnil
  have hempty : NUMERAL.rmatch [] = false := by decide
  rw [isNumeral, hnil, hempty] at h
  cases h

theorem whole_toDigits (n : Nat) : WHOLE.rmatch (Nat.toDigits 10 n) = true := by
  have hdigit : ∀ d < 10, Nat.digitChar d ∈ DIGIT := by decide
  have hlead : ∀ d < 10, 0 < d → Nat.digitChar d ∈ "123456789".toList := by decide
  have hpos : ∀ n, 0 < n → (oneOf "123456789".toList * star (oneOf DIGIT)).rmatch
      (Nat.toDigits 10 n) = true := by
    intro n
    induction n using Nat.strong_induction_on with
    | _ n ih =>
      intro hn
      by_cases hsmall : n < 10
      · rw [Nat.toDigits_of_lt_base hsmall, mul_rmatch_iff]
        refine ⟨[n.digitChar], [], rfl, ?_, ?_⟩
        · exact (oneOf_rmatch_iff _ _).mpr ⟨_, hlead n hsmall hn, rfl⟩
        · exact (star_oneOf_rmatch_iff _ _).mpr fun c hc => by cases hc
      · have hrec := ih (n / 10) (by omega) (by omega)
        obtain ⟨first, rest, hsplit, hfirst, hrest⟩ := (mul_rmatch_iff _ _ _).mp hrec
        rw [Nat.toDigits_of_base_le (by decide) (by omega), hsplit, mul_rmatch_iff]
        refine ⟨first, rest ++ [(n % 10).digitChar], by rw [List.append_assoc], hfirst, ?_⟩
        rw [star_oneOf_rmatch_iff] at hrest ⊢
        intro c hc
        rcases List.mem_append.mp hc with hc | hc
        · exact hrest c hc
        · rw [List.mem_singleton.mp hc]
          exact hdigit _ (Nat.mod_lt n (by decide))
  rw [WHOLE, add_rmatch_iff]
  rcases Nat.eq_zero_or_pos n with rfl | hn
  · exact .inl (by decide)
  · exact .inr (hpos n hn)

theorem toList_toString_ofNat (n : Nat) :
    (toString (Int.ofNat n)).toList = Nat.toDigits 10 n :=
  Nat.toList_repr

theorem toList_toString_negSucc (n : Nat) :
    (toString (Int.negSucc n)).toList = '-' :: Nat.toDigits 10 (n + 1) := by
  have hrepr : toString (Int.negSucc n) = "-" ++ (n + 1).repr := rfl
  rw [hrepr, String.toList_append, Nat.toList_repr]
  rfl

theorem optional_rmatch_nil (P : RegularExpression Char) : (optional P).rmatch [] = true :=
  (optional_rmatch_iff P []).mpr (.inl rfl)

theorem signed_toString (n : Int) :
    (optional (char '-') * WHOLE).rmatch (toString n).toList = true := by
  rw [mul_rmatch_iff]
  cases n with
  | ofNat n =>
    exact ⟨[], _, toList_toString_ofNat n, optional_rmatch_nil _, whole_toDigits n⟩
  | negSucc n =>
    have hsign : (optional (char '-')).rmatch ['-'] = true :=
      (optional_rmatch_iff _ _).mpr (.inr (by decide))
    exact ⟨['-'], _, toList_toString_negSucc n, hsign, whole_toDigits (n + 1)⟩

theorem isNumeral_toString (n : Int) : isNumeral (toString n) = true := by
  rw [isNumeral, NUMERAL, mul_rmatch_iff]
  refine ⟨_, [], (List.append_nil _).symm, ?_, optional_rmatch_nil _⟩
  rw [mul_rmatch_iff]
  exact ⟨_, [], (List.append_nil _).symm, signed_toString n, optional_rmatch_nil _⟩

/-! ## Writing -/

def QUOTE : Char := Char.ofNat 34

def BACKSLASH : Char := Char.ofNat 92

/-- The characters that have an escape of their own, with its letter. -/
def ESCAPES : List (Char × Char) :=
  [(QUOTE, QUOTE), (BACKSLASH, BACKSLASH), (Char.ofNat 8, 'b'), (Char.ofNat 9, 't'),
    (Char.ofNat 10, 'n'), (Char.ofNat 12, 'f'), (Char.ofNat 13, 'r')]

def hex4 (n : Nat) : List Char :=
  [hexDigit (n / 4096 % 16), hexDigit (n / 256 % 16), hexDigit (n / 16 % 16), hexDigit (n % 16)]

def escapeChar (c : Char) : List Char :=
  match JsMap.find c ESCAPES with
  | some e => [BACKSLASH, e]
  | none => if c.toNat < 32 then BACKSLASH :: 'u' :: hex4 c.toNat else [c]

def quote (s : String) : List Char := QUOTE :: (s.toList.flatMap escapeChar ++ [QUOTE])

mutual

/-- The characters of `JSON.stringify(value)`; a number that is not finite is written `null`. -/
def render : Value → List Char
  | .null => "null".toList
  | .bool true => "true".toList
  | .bool false => "false".toList
  | .int n => (toString n).toList
  | .num text => if isNumeral text then text.toList else "null".toList
  | .str s => quote s
  | .arr [] => ['[', ']']
  | .arr (v :: rest) => '[' :: (render v ++ renderItems rest)
  | .obj [] => [Char.ofNat 123, Char.ofNat 125]
  | .obj ((key, v) :: rest) =>
    Char.ofNat 123 :: (quote key ++ ':' :: (render v ++ renderFields rest))

def renderItems : List Value → List Char
  | [] => [']']
  | v :: rest => ',' :: (render v ++ renderItems rest)

def renderFields : List (String × Value) → List Char
  | [] => [Char.ofNat 125]
  | (key, v) :: rest => ',' :: (quote key ++ ':' :: (render v ++ renderFields rest))

end

/-- `JSON.stringify(value)`. -/
def stringify (v : Value) : String := String.ofList (render v)

/-! ## Reading -/

def isSpace (c : Char) : Bool := c ∈ [' ', Char.ofNat 9, Char.ofNat 10, Char.ofNat 13]

def skipSpace (text : List Char) : List Char := text.dropWhile isSpace

/-- The code unit that four hex digits write. -/
def readUnit (a b c d : Char) : Option Nat :=
  match hexValue a, hexValue b, hexValue c, hexValue d with
  | some w, some x, some y, some z => some (4096 * w + 256 * x + 16 * y + z)
  | _, _, _, _ => none

/-- What the escapes of one letter stand for. -/
def UNESCAPES : List (Char × Char) := ('/', '/') :: ESCAPES.map fun e => (e.2, e.1)

/-- The rest of a string behind its opening quote.  A surrogate that is not half of a pair is no
character and is not read. -/
def readString : List Char → Option (List Char × List Char)
  | [] => none
  | c :: text =>
    if c = QUOTE then some ([], text)
    else if c = BACKSLASH then
      match text with
      | [] => none
      | e :: text =>
        if e = 'u' then
          match text with
          | x₁ :: x₂ :: x₃ :: x₄ :: text =>
            match readUnit x₁ x₂ x₃ x₄ with
            | none => none
            | some high =>
              if high < 0xD800 ∨ 0xDFFF < high then
                (readString text).map fun r => (Char.ofNat high :: r.1, r.2)
              else
                match text with
                | s :: u :: y₁ :: y₂ :: y₃ :: y₄ :: text =>
                  match readUnit y₁ y₂ y₃ y₄ with
                  | none => none
                  | some low =>
                    if s = BACKSLASH ∧ u = 'u' ∧ high < 0xDC00 ∧ 0xDC00 ≤ low ∧
                        low ≤ 0xDFFF then
                      (readString text).map fun r =>
                        (Char.ofNat (0x10000 + (high - 0xD800) * 0x400 +
                          (low - 0xDC00)) :: r.1, r.2)
                    else none
                | _ => none
          | _ => none
        else
          match JsMap.find e UNESCAPES with
          | none => none
          | some c => (readString text).map fun r => (c :: r.1, r.2)
    else if c.toNat < 32 then none
    else (readString text).map fun r => (c :: r.1, r.2)

/-- `word` at the start of the text, as the value `v`. -/
def readWord (word : String) (v : Value) (text : List Char) : Option (Value × List Char) :=
  if word.toList.isPrefixOf text then some (v, text.drop word.toList.length) else none

def readNumeral (text : List Char) : Option (Value × List Char) :=
  let numeral := text.takeWhile numeralChar
  if NUMERAL.rmatch numeral then
    some (.num (String.ofList numeral), text.dropWhile numeralChar)
  else none

mutual

/-- The value at the start of the text, and what is behind it. -/
def readValue : Nat → List Char → Option (Value × List Char)
  | 0, _ => none
  | fuel + 1, text =>
    match skipSpace text with
    | [] => none
    | c :: text =>
      if c = QUOTE then (readString text).map fun r => (.str (String.ofList r.1), r.2)
      else if c = '[' then
        if (skipSpace text).head? = some ']' then some (.arr [], (skipSpace text).tail)
        else (readItems fuel text).map fun r => (.arr r.1, r.2)
      else if c = Char.ofNat 123 then
        if (skipSpace text).head? = some (Char.ofNat 125) then
          some (.obj [], (skipSpace text).tail)
        else (readFields fuel [] text).map fun r => (.obj r.1, r.2)
      else if c = 'n' then readWord "null" .null (c :: text)
      else if c = 't' then readWord "true" (.bool true) (c :: text)
      else if c = 'f' then readWord "false" (.bool false) (c :: text)
      else readNumeral (c :: text)

/-- The items of an array, up to its closing bracket. -/
def readItems : Nat → List Char → Option (List Value × List Char)
  | 0, _ => none
  | fuel + 1, text =>
    match readValue fuel text with
    | none => none
    | some (v, text) =>
      match skipSpace text with
      | [] => none
      | c :: text =>
        if c = ',' then (readItems fuel text).map fun r => (v :: r.1, r.2)
        else if c = ']' then some ([v], text)
        else none

/-- The properties of an object, up to its closing brace; a key that comes again is set again. -/
def readFields : Nat → List (String × Value) → List Char →
    Option (List (String × Value) × List Char)
  | 0, _, _ => none
  | fuel + 1, before, text =>
    match skipSpace text with
    | [] => none
    | c :: text =>
      if c ≠ QUOTE then none
      else
        match readString text with
        | none => none
        | some (key, text) =>
          match skipSpace text with
          | [] => none
          | c :: text =>
            if c ≠ ':' then none
            else
              match readValue fuel text with
              | none => none
              | some (v, text) =>
                let fields := JsMap.insert (String.ofList key) v before
                match skipSpace text with
                | [] => none
                | c :: text =>
                  if c = ',' then readFields fuel fields text
                  else if c = Char.ofNat 125 then some (fields, text)
                  else none

end

/-- `JSON.parse(text)`; `none` where it throws. -/
def parse (text : String) : Option Value :=
  match readValue (text.toList.length + 1) text.toList with
  | some (v, rest) => if skipSpace rest = [] then some v else none
  | none => none

/-! ## Strings come back -/

theorem skipSpace_cons {c : Char} (h : isSpace c = false) (text : List Char) :
    skipSpace (c :: text) = c :: text := by
  rw [skipSpace, List.dropWhile_cons, h]
  rfl

theorem readUnit_hex4 {n : Nat} (h : n < 65536) :
    readUnit (hexDigit (n / 4096 % 16)) (hexDigit (n / 256 % 16)) (hexDigit (n / 16 % 16))
      (hexDigit (n % 16)) = some n := by
  have hvalue : ∀ m, hexValue (hexDigit (m % 16)) = some (m % 16) :=
    fun m => hexValue_hexDigit (Nat.mod_lt m (by decide))
  have hn : 4096 * (n / 4096 % 16) + 256 * (n / 256 % 16) + 16 * (n / 16 % 16) + n % 16 = n := by
    omega
  rw [readUnit, hvalue, hvalue, hvalue, hvalue, ← hn]
  simp only [hn]

theorem readString_escapeChar (c : Char) (text : List Char) :
    readString (escapeChar c ++ text) = (readString text).map fun r => (c :: r.1, r.2) := by
  have hback : BACKSLASH ≠ QUOTE := by decide
  unfold escapeChar
  cases hfind : JsMap.find c ESCAPES with
  | some e =>
    have hletter : e ≠ 'u' ∧ JsMap.find e UNESCAPES = some c := by
      have hall : ∀ p ∈ ESCAPES, p.2 ≠ 'u' ∧ JsMap.find p.2 UNESCAPES = some p.1 :=
        forall_mem_of_all (by decide)
      exact hall (c, e) ((JsMap.find_eq_some_iff (by decide) c e).mp hfind)
    rw [List.cons_append, readString.eq_def]
    simp only [List.cons_append, List.nil_append, if_neg hback, if_true, if_neg hletter.1,
      hletter.2]
  | none =>
    by_cases hcontrol : c.toNat < 32
    · have hhigh : c.toNat < 0xD800 ∨ 0xDFFF < c.toNat := .inl (by omega)
      simp only [hcontrol, if_true, List.cons_append]
      rw [readString.eq_def]
      simp only [hex4, List.cons_append, List.nil_append, if_neg hback, if_true,
        readUnit_hex4 (show c.toNat < 65536 by omega), if_pos hhigh, Char.ofNat_toNat]
    · have hne : c ≠ QUOTE ∧ c ≠ BACKSLASH := by
        constructor
        · rintro rfl
          cases hfind
        · rintro rfl
          cases hfind
      simp only [hcontrol, if_false, List.cons_append, List.nil_append]
      rw [readString.eq_def]
      simp only [if_neg hne.1, if_neg hne.2, if_neg hcontrol]

theorem readString_quote (cs text : List Char) :
    readString (cs.flatMap escapeChar ++ QUOTE :: text) = some (cs, text) := by
  induction cs with
  | nil =>
    rw [List.flatMap_nil, List.nil_append, readString.eq_def]
    rfl
  | cons c cs ih =>
    rw [List.flatMap_cons, List.append_assoc, readString_escapeChar, ih]
    rfl

/-! ## Scalars come back -/

/-- No numeral goes on in the text. -/
def Stops (text : List Char) : Prop := ∀ c, text.head? = some c → numeralChar c = false

theorem stops_cons {c : Char} (h : numeralChar c = false) (text : List Char) :
    Stops (c :: text) := by
  intro d hd
  cases hd
  exact h

theorem readNumeral_append {text : String} (h : isNumeral text = true) {rest : List Char}
    (hrest : Stops rest) : readNumeral (text.toList ++ rest) = some (.num text, rest) := by
  have hchars := numeralChar_of_isNumeral h
  have htake : rest.takeWhile numeralChar = [] := by
    cases rest with
    | nil => rfl
    | cons c rest => rw [List.takeWhile_cons, hrest c rfl]; rfl
  have hdrop : rest.dropWhile numeralChar = rest := by
    cases rest with
    | nil => rfl
    | cons c rest => rw [List.dropWhile_cons, hrest c rfl]; rfl
  unfold readNumeral
  rw [List.takeWhile_append_of_pos hchars, List.dropWhile_append_of_pos hchars, htake, hdrop,
    List.append_nil]
  simp only [show NUMERAL.rmatch text.toList = true from h, if_true, String.ofList_toList]

theorem readValue_numeral {text : String} (h : isNumeral text = true) {rest : List Char}
    (hrest : Stops rest) (fuel : Nat) :
    readValue (fuel + 1) (text.toList ++ rest) = some (.num text, rest) := by
  have hread := readNumeral_append h hrest
  have hchars := numeralChar_of_isNumeral h
  generalize hcs : text.toList = cs at hread hchars
  cases cs with
  | nil => exact absurd hcs (isNumeral_ne_nil h)
  | cons c cs =>
    have hall : ∀ c ∈ "-.+eE0123456789".toList, isSpace c = false ∧ c ≠ QUOTE ∧ c ≠ '[' ∧
        c ≠ Char.ofNat 123 ∧ c ≠ 'n' ∧ c ≠ 't' ∧ c ≠ 'f' := forall_mem_of_all (by decide)
    obtain ⟨hspace, hquote, hbracket, hbrace, hn, ht, hf⟩ :=
      hall c (of_decide_eq_true (hchars c (List.mem_cons_self ..)))
    rw [readValue, List.cons_append, skipSpace_cons hspace]
    simp only [if_neg hquote, if_neg hbracket, if_neg hbrace, if_neg hn, if_neg ht, if_neg hf]
    exact hread

theorem readValue_null (fuel : Nat) (rest : List Char) :
    readValue (fuel + 1) ("null".toList ++ rest) = some (.null, rest) := rfl

theorem readValue_quote (fuel : Nat) (s : String) (rest : List Char) :
    readValue (fuel + 1) (quote s ++ rest) = some (.str s, rest) := by
  rw [readValue, quote, List.cons_append, skipSpace_cons (by decide)]
  simp only [if_true, List.append_assoc, List.cons_append, List.nil_append, readString_quote,
    Option.map_some, String.ofList_toList]

/-! ## Values come back -/

mutual

/-- What of a value is in its text: numbers that are not finite are lost. -/
def written : Value → Value
  | .null => .null
  | .bool b => .bool b
  | .int n => .num (toString n)
  | .num text => if isNumeral text then .num text else .null
  | .str s => .str s
  | .arr items => .arr (writtenItems items)
  | .obj fields => .obj (writtenFields fields)

def writtenItems : List Value → List Value
  | [] => []
  | v :: rest => written v :: writtenItems rest

def writtenFields : List (String × Value) → List (String × Value)
  | [] => []
  | (key, v) :: rest => (key, written v) :: writtenFields rest

end

mutual

/-- No object in the value has a key twice. -/
def DistinctKeys : Value → Prop
  | .arr items => DistinctItems items
  | .obj fields => (fields.map Prod.fst).Nodup ∧ DistinctFields fields
  | .null => True
  | .bool _ => True
  | .int _ => True
  | .num _ => True
  | .str _ => True

def DistinctItems : List Value → Prop
  | [] => True
  | v :: rest => DistinctKeys v ∧ DistinctItems rest

def DistinctFields : List (String × Value) → Prop
  | [] => True
  | (_, v) :: rest => DistinctKeys v ∧ DistinctFields rest

end

/-- A value is read from its text, whatever comes behind it. -/
def ReadsBack (v : Value) : Prop :=
  ∀ (fuel : Nat) (rest : List Char), (render v).length ≤ fuel → Stops rest →
    readValue fuel (render v ++ rest) = some (written v, rest)

theorem stops_renderItems (items : List Value) (rest : List Char) :
    Stops (renderItems items ++ rest) := by
  cases items with
  | nil => exact stops_cons (by decide) _
  | cons v items => exact stops_cons (by decide) _

theorem stops_renderFields (fields : List (String × Value)) (rest : List Char) :
    Stops (renderFields fields ++ rest) := by
  cases fields with
  | nil => exact stops_cons (by decide) _
  | cons e fields => exact stops_cons (by decide) _

theorem length_renderItems_pos (items : List Value) : 0 < (renderItems items).length := by
  cases items with
  | nil => exact Nat.zero_lt_one
  | cons v items => exact Nat.succ_pos _

theorem length_renderFields_pos (fields : List (String × Value)) :
    0 < (renderFields fields).length := by
  cases fields with
  | nil => exact Nat.zero_lt_one
  | cons e fields => exact Nat.succ_pos _

/-- No value starts like the end of an array, with a space or with a byte order mark. -/
theorem render_head (v : Value) :
    ∃ c text, render v = c :: text ∧ isSpace c = false ∧ c ≠ ']' ∧ c ≠ Char.ofNat 0xFEFF := by
  have hnumeral : ∀ text, isNumeral text = true →
      ∃ c cs, text.toList = c :: cs ∧ isSpace c = false ∧ c ≠ ']' ∧ c ≠ Char.ofNat 0xFEFF := by
    intro text h
    have hchars := numeralChar_of_isNumeral h
    have hall : ∀ c ∈ "-.+eE0123456789".toList,
        isSpace c = false ∧ c ≠ ']' ∧ c ≠ Char.ofNat 0xFEFF := forall_mem_of_all (by decide)
    cases hcs : text.toList with
    | nil => exact absurd hcs (isNumeral_ne_nil h)
    | cons c cs =>
      rw [hcs] at hchars
      exact ⟨c, cs, rfl, hall c (of_decide_eq_true (hchars c (List.mem_cons_self ..)))⟩
  cases v with
  | null => exact ⟨'n', _, rfl, by decide, by decide, by decide⟩
  | bool b =>
    cases b with
    | true => exact ⟨'t', _, rfl, by decide, by decide, by decide⟩
    | false => exact ⟨'f', _, rfl, by decide, by decide, by decide⟩
  | int n => exact hnumeral _ (isNumeral_toString n)
  | num text =>
    cases h : isNumeral text with
    | true =>
      simp only [render, h, if_true]
      exact hnumeral text h
    | false =>
      exact ⟨'n', "ull".toList, by simp only [render, h]; rfl, by decide, by decide, by decide⟩
  | str s => exact ⟨QUOTE, _, by rw [render, quote], by decide, by decide, by decide⟩
  | arr items =>
    cases items with
    | nil => exact ⟨'[', _, rfl, by decide, by decide, by decide⟩
    | cons v rest => exact ⟨'[', _, by rw [render], by decide, by decide, by decide⟩
  | obj fields =>
    cases fields with
    | nil => exact ⟨Char.ofNat 123, _, rfl, by decide, by decide, by decide⟩
    | cons e rest => exact ⟨Char.ofNat 123, _, by rw [render], by decide, by decide, by decide⟩

theorem exists_fuel {v : Value} {fuel : Nat} (h : (render v).length ≤ fuel) :
    ∃ fuel', fuel = fuel' + 1 := by
  obtain ⟨c, text, hrender, -⟩ := render_head v
  rw [hrender, List.length_cons] at h
  exact ⟨fuel - 1, by omega⟩

theorem readValue_item {v : Value} (hv : ReadsBack v) {items : List Value} {fuel : Nat}
    (hfuel : (render v).length + (renderItems items).length ≤ fuel + 1) (rest : List Char) :
    readValue fuel (render v ++ (renderItems items ++ rest)) =
      some (written v, renderItems items ++ rest) := by
  have hpos := length_renderItems_pos items
  exact hv fuel _ (by omega) (stops_renderItems items rest)

theorem readValue_field {v : Value} (hv : ReadsBack v) {fields : List (String × Value)}
    {fuel : Nat} (hfuel : (render v).length + (renderFields fields).length ≤ fuel + 1)
    (rest : List Char) :
    readValue fuel (render v ++ (renderFields fields ++ rest)) =
      some (written v, renderFields fields ++ rest) := by
  have hpos := length_renderFields_pos fields
  exact hv fuel _ (by omega) (stops_renderFields fields rest)

theorem readFields_succ (key : String) {w : Value} {text : List Char} {fuel : Nat}
    (before : List (String × Value)) {c : Char} {rest : List Char}
    (hv : readValue fuel text = some (w, c :: rest)) (hc : isSpace c = false) :
    readFields (fuel + 1) before (quote key ++ ':' :: text) =
      if c = ',' then readFields fuel (JsMap.insert key w before) rest
      else if c = Char.ofNat 125 then some (JsMap.insert key w before, rest) else none := by
  rw [readFields, quote, List.cons_append, skipSpace_cons (by decide)]
  simp only [ne_eq, not_true_eq_false, if_false, List.append_assoc, List.cons_append,
    List.nil_append, readString_quote]
  rw [skipSpace_cons (by decide)]
  simp only [not_true_eq_false, if_false, hv, skipSpace_cons hc, String.ofList_toList]

theorem fresh_key {key : String} {before : List (String × Value)} {keys : List String}
    (h : (before.map Prod.fst ++ key :: keys).Nodup) : JsMap.find key before = none := by
  cases hfind : JsMap.find key before with
  | none => rfl
  | some v =>
    have hmem : key ∈ before.map Prod.fst :=
      List.mem_map_of_mem (JsMap.mem_of_find hfind)
    exact absurd rfl ((List.nodup_append.mp h).2.2 key hmem key (List.mem_cons_self ..))

mutual

theorem readsBack : ∀ v : Value, DistinctKeys v → ReadsBack v
  | .null, _, fuel, rest, hfuel, _ => by
    obtain ⟨fuel, rfl⟩ := exists_fuel hfuel
    exact readValue_null fuel rest
  | .bool true, _, fuel, rest, hfuel, _ => by
    obtain ⟨fuel, rfl⟩ := exists_fuel hfuel
    rfl
  | .bool false, _, fuel, rest, hfuel, _ => by
    obtain ⟨fuel, rfl⟩ := exists_fuel hfuel
    rfl
  | .int n, _, fuel, rest, hfuel, hrest => by
    obtain ⟨fuel, rfl⟩ := exists_fuel hfuel
    exact readValue_numeral (isNumeral_toString n) hrest fuel
  | .num text, _, fuel, rest, hfuel, hrest => by
    obtain ⟨fuel, rfl⟩ := exists_fuel hfuel
    cases h : isNumeral text with
    | true =>
      simp only [render, written, h, if_true]
      exact readValue_numeral h hrest fuel
    | false =>
      simp only [render, written, h]
      exact readValue_null fuel rest
  | .str s, _, fuel, rest, hfuel, _ => by
    obtain ⟨fuel, rfl⟩ := exists_fuel hfuel
    exact readValue_quote fuel s rest
  | .arr [], _, fuel, rest, hfuel, _ => by
    obtain ⟨fuel, rfl⟩ := exists_fuel hfuel
    rfl
  | .arr (v :: items), hv, fuel, rest, hfuel, _ => by
    obtain ⟨fuel, rfl⟩ := exists_fuel hfuel
    rw [render, List.length_cons, List.length_append] at hfuel
    have hitems := readItems_render v items (readsBack v hv.1) hv.2 fuel rest (by omega)
    obtain ⟨c, text, hhead, hspace, hend, -⟩ := render_head v
    rw [render, readValue, List.cons_append, skipSpace_cons (by decide), List.append_assoc]
    have hopen : (skipSpace (render v ++ (renderItems items ++ rest))).head? ≠ some ']' := by
      rw [hhead, List.cons_append, skipSpace_cons hspace]
      intro h
      exact hend (Option.some.inj h)
    simp only [show ('[' : Char) ≠ QUOTE by decide, if_false, if_true, if_neg hopen, hitems,
      Option.map_some, written, writtenItems]
  | .obj [], _, fuel, rest, hfuel, _ => by
    obtain ⟨fuel, rfl⟩ := exists_fuel hfuel
    rfl
  | .obj ((key, v) :: fields), hv, fuel, rest, hfuel, _ => by
    obtain ⟨fuel, rfl⟩ := exists_fuel hfuel
    rw [render, List.length_cons, List.length_append, List.length_cons, List.length_append]
      at hfuel
    have hfields := readFields_render key v fields (readsBack v hv.2.1) hv.2.2 [] hv.1 fuel rest
      (by omega)
    have hopen : (skipSpace (quote key ++ ':' ::
        (render v ++ (renderFields fields ++ rest)))).head? ≠ some (Char.ofNat 125) := by
      rw [quote, List.cons_append, skipSpace_cons (by decide)]
      have hne : QUOTE ≠ Char.ofNat 125 := by decide
      exact fun h => hne (Option.some.inj h)
    rw [render, readValue, List.cons_append, skipSpace_cons (by decide)]
    simp only [List.append_assoc, List.cons_append, show Char.ofNat 123 ≠ QUOTE by decide,
      show Char.ofNat 123 ≠ '[' by decide, if_false, if_true, if_neg hopen, hfields,
      Option.map_some, written, writtenFields, List.nil_append]

theorem readItems_render : ∀ (v : Value) (items : List Value), ReadsBack v →
    DistinctItems items → ∀ (fuel : Nat) (rest : List Char),
      (render v).length + (renderItems items).length ≤ fuel →
        readItems fuel (render v ++ (renderItems items ++ rest)) =
          some (written v :: writtenItems items, rest)
  | v, [], hv, _, fuel, rest, hfuel => by
    have hpos := length_renderItems_pos []
    obtain ⟨fuel, rfl⟩ : ∃ n, fuel = n + 1 := ⟨fuel - 1, by omega⟩
    rw [readItems, readValue_item hv hfuel]
    rfl
  | v, w :: items, hv, hitems, fuel, rest, hfuel => by
    have hpos := length_renderItems_pos (w :: items)
    obtain ⟨fuel, rfl⟩ : ∃ n, fuel = n + 1 := ⟨fuel - 1, by omega⟩
    rw [readItems, readValue_item hv hfuel]
    rw [renderItems, List.length_cons, List.length_append] at hfuel
    have hrest := readItems_render w items (readsBack w hitems.1) hitems.2 fuel rest (by omega)
    rw [renderItems, List.cons_append]
    simp only [skipSpace_cons (show isSpace ',' = false by decide), if_true, List.append_assoc,
      hrest, Option.map_some, writtenItems]

theorem readFields_render : ∀ (key : String) (v : Value) (fields : List (String × Value)),
    ReadsBack v → DistinctFields fields → ∀ before : List (String × Value),
      (before.map Prod.fst ++ key :: fields.map Prod.fst).Nodup → ∀ (fuel : Nat) (rest : List Char),
        (render v).length + (renderFields fields).length ≤ fuel →
          readFields fuel before (quote key ++ ':' :: (render v ++ (renderFields fields ++ rest))) =
            some (before ++ (key, written v) :: writtenFields fields, rest)
  | key, v, [], hv, _, before, hnodup, fuel, rest, hfuel => by
    have hpos := length_renderFields_pos []
    obtain ⟨fuel, rfl⟩ : ∃ n, fuel = n + 1 := ⟨fuel - 1, by omega⟩
    have hread := readValue_field hv hfuel rest
    rw [readFields_succ key before hread (by decide), JsMap.insert_of_fresh (fresh_key hnodup)]
    rfl
  | key, v, (key', w) :: fields, hv, hfields, before, hnodup, fuel, rest, hfuel => by
    have hpos := length_renderFields_pos ((key', w) :: fields)
    obtain ⟨fuel, rfl⟩ : ∃ n, fuel = n + 1 := ⟨fuel - 1, by omega⟩
    have hread := readValue_field hv hfuel rest
    rw [renderFields, List.length_cons, List.length_append, List.length_cons,
      List.length_append] at hfuel
    rw [renderFields, List.cons_append] at hread
    have hbefore : ((before ++ [(key, written v)]).map Prod.fst ++
        key' :: fields.map Prod.fst).Nodup := by
      simpa using hnodup
    have hrest := readFields_render key' w fields (readsBack w hfields.1) hfields.2
      (before ++ [(key, written v)]) hbefore fuel rest (by omega)
    rw [renderFields, List.cons_append, readFields_succ key before hread (by decide), if_pos rfl,
      JsMap.insert_of_fresh (fresh_key hnodup)]
    simp only [List.append_assoc, List.cons_append, List.nil_append] at hrest ⊢
    exact hrest

end

theorem parse_stringify {v : Value} (h : DistinctKeys v) :
    parse (stringify v) = some (written v) := by
  have hread : readValue ((render v).length + 1) (render v ++ []) = some (written v, []) := by
    refine readsBack v h _ [] (Nat.le_succ _) ?_
    intro c hc
    cases hc
  rw [List.append_nil] at hread
  rw [parse, stringify, String.toList_ofList, hread]
  rfl

/-! ## What was written once -/

mutual

theorem render_written : ∀ v : Value, render (written v) = render v
  | .null => rfl
  | .bool _ => rfl
  | .int n => by simp only [written, render, isNumeral_toString, if_true]
  | .num text => by
    cases h : isNumeral text with
    | true => simp only [written, h, if_true]
    | false =>
      simp only [written, render, h]
      rfl
  | .str _ => rfl
  | .arr [] => rfl
  | .arr (v :: items) => by
    simp only [written, writtenItems, render, render_written v, renderItems_written items]
  | .obj [] => rfl
  | .obj ((key, v) :: fields) => by
    simp only [written, writtenFields, render, render_written v, renderFields_written fields]

theorem renderItems_written : ∀ items : List Value,
    renderItems (writtenItems items) = renderItems items
  | [] => rfl
  | v :: items => by
    simp only [writtenItems, renderItems, render_written v, renderItems_written items]

theorem renderFields_written : ∀ fields : List (String × Value),
    renderFields (writtenFields fields) = renderFields fields
  | [] => rfl
  | (key, v) :: fields => by
    simp only [writtenFields, renderFields, render_written v, renderFields_written fields]

end

theorem stringify_written (v : Value) : stringify (written v) = stringify v := by
  rw [stringify, stringify, render_written]

theorem find_writtenFields (key : String) (fields : List (String × Value)) :
    JsMap.find key (writtenFields fields) = (JsMap.find key fields).map written := by
  induction fields with
  | nil => rfl
  | cons e rest ih =>
    obtain ⟨key', v⟩ := e
    simp only [writtenFields, JsMap.find, ih]
    split <;> rfl

theorem writtenItems_eq_map (items : List Value) : writtenItems items = items.map written := by
  induction items with
  | nil => rfl
  | cons v rest ih => rw [writtenItems, ih, List.map_cons]

end NeuronWeb.JsonText
