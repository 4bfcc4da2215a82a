/-
  Core/CanonicalJson: the canonical JSON of `engine/core/hash.ts`, as text.

  Keys are sorted at every depth, so that one value has one text.  What can be read from the
  text again is the value up to the order of its properties, less the properties named
  `__proto__` and the numbers that are not finite.
-/
import NeuronWeb.Core.JsonText

set_option autoImplicit false

namespace NeuronWeb.JsonText

/-! ## Sorting -/

/-- The UTF-16 code units of a text. -/
def codeUnits (s : String) : List Nat :=
  s.toList.flatMap fun c =>
    if c.toNat < 0x10000 then [c.toNat]
    else [0xD800 + (c.toNat - 0x10000) / 0x400, 0xDC00 + (c.toNat - 0x10000) % 0x400]

/-- The array index that a key is. -/
def arrayIndex? (key : String) : Option Nat :=
  let index := Nat.ofDigitChars 10 key.toList 0
  if WHOLE.rmatch key.toList ∧ index < 2 ^ 32 - 1 then some index else none

/-- The place of a key in an object whose keys were set in sorted order: array indices come
first, by their value, and the others by their code units. -/
def keyRank (key : String) : List Nat :=
  match arrayIndex? key with
  | some index => [0, index]
  | none => 1 :: codeUnits key

/-- Put a property at its place. -/
def place (key : String) (v : Value) : List (String × Value) → List (String × Value)
  | [] => [(key, v)]
  | (key', v') :: rest =>
    if keyRank key' < keyRank key then (key', v') :: place key v rest
    else (key, v) :: (key', v') :: rest

/-- The accessor that every object inherits. -/
def PROTO : String := "__proto__"

mutual

/-- `sortValue(value)`.  `out[key] = …` is not a property of `out` when the key is `__proto__`:
it calls the accessor. -/
def sortValue : Value → Value
  | .arr items => .arr (sortItems items)
  | .obj fields => .obj (sortFields fields)
  | .null => .null
  | .bool b => .bool b
  | .int n => .int n
  | .num text => .num text
  | .str s => .str s

def sortItems : List Value → List Value
  | [] => []
  | v :: rest => sortValue v :: sortItems rest

def sortFields : List (String × Value) → List (String × Value)
  | [] => []
  | (key, v) :: rest =>
    if key = PROTO then sortFields rest
    else place key (sortValue v) ((sortFields rest).filter fun e => e.1 ≠ key)

end

/-- `canonicalJson(value)`. -/
def canonicalJson (v : Value) : String := stringify (sortValue v)

theorem find_filter_ne (key j : String) (fields : List (String × Value)) :
    JsMap.find j (fields.filter fun e => e.1 ≠ key) =
      if key = j then none else JsMap.find j fields := by
  induction fields with
  | nil => simp [JsMap.find]
  | cons e rest ih =>
    obtain ⟨key', v⟩ := e
    by_cases hkey : key' = key
    · simp only [List.filter_cons, hkey, ne_eq, not_true_eq_false, decide_false, JsMap.find]
      rw [if_neg (by decide), ih]
      split <;> rfl
    · simp only [List.filter_cons, hkey, ne_eq, not_false_eq_true, decide_true, if_true,
        JsMap.find, ih]
      by_cases hj : key = j
      · rw [if_pos hj, if_pos hj, if_neg (hj ▸ hkey)]
      · rw [if_neg hj, if_neg hj]

theorem find_place (key j : String) (v : Value) (fields : List (String × Value)) :
    JsMap.find j (place key v fields) = if key = j then some v else JsMap.find j fields := by
  induction fields with
  | nil => rfl
  | cons e rest ih =>
    obtain ⟨key', v'⟩ := e
    unfold place
    split
    case isTrue hlt =>
      have hne : key' ≠ key := fun h => List.lt_irrefl _ (h ▸ hlt)
      simp only [JsMap.find, ih]
      by_cases hj : key = j
      · rw [if_pos hj, if_pos hj, if_neg (hj ▸ hne)]
      · rw [if_neg hj, if_neg hj]
    case isFalse => rfl

theorem find_sortFields (fields : List (String × Value)) (key : String) :
    JsMap.find key (sortFields fields) =
      if key = PROTO then none else (JsMap.find key fields).map sortValue := by
  induction fields with
  | nil => simp [sortFields, JsMap.find]
  | cons e rest ih =>
    obtain ⟨key', v⟩ := e
    unfold sortFields
    split
    case isTrue hproto =>
      rw [ih]
      by_cases hkey : key = PROTO
      · rw [if_pos hkey, if_pos hkey]
      · have hne : key' ≠ key := fun h => hkey (h.symm.trans hproto)
        rw [if_neg hkey, if_neg hkey, JsMap.find, if_neg hne]
    case isFalse hproto =>
      rw [find_place, find_filter_ne, ih, JsMap.find]
      by_cases hkey : key' = key
      · rw [if_pos hkey, if_pos hkey, if_neg (hkey ▸ hproto)]
        rfl
      · rw [if_neg hkey, if_neg hkey, if_neg hkey]

theorem sortItems_eq_map (items : List Value) : sortItems items = items.map sortValue := by
  induction items with
  | nil => rfl
  | cons v rest ih => rw [sortItems, ih, List.map_cons]

/-! ### Sorting once -/

theorem place_perm (key : String) (v : Value) (fields : List (String × Value)) :
    (place key v fields).Perm ((key, v) :: fields) := by
  induction fields with
  | nil => exact List.Perm.refl _
  | cons e rest ih =>
    obtain ⟨key', v'⟩ := e
    unfold place
    split
    case isTrue => exact (ih.cons _).trans (List.Perm.swap ..)
    case isFalse => exact List.Perm.refl _

/-- The properties are in the order of their keys, each key once, and none is `__proto__`. -/
structure Canonical (fields : List (String × Value)) : Prop where
  sorted : fields.Pairwise fun e e' => ¬ keyRank e'.1 < keyRank e.1
  nodup : (fields.map Prod.fst).Nodup
  no_proto : ∀ e ∈ fields, e.1 ≠ PROTO

variable {fields : List (String × Value)}

theorem Canonical.tail {e : String × Value} (h : Canonical (e :: fields)) : Canonical fields where
  sorted := h.sorted.of_cons
  nodup := (List.nodup_cons.mp h.nodup).2
  no_proto e' he' := h.no_proto e' (List.mem_cons_of_mem _ he')

theorem Canonical.filter (h : Canonical fields)
    (p : String × Value → Bool) : Canonical (fields.filter p) where
  sorted := h.sorted.filter p
  nodup := h.nodup.sublist (List.filter_sublist.map Prod.fst)
  no_proto e he := h.no_proto e (List.mem_of_mem_filter he)

theorem sorted_place (key : String) (v : Value)
    (h : fields.Pairwise fun e e' => ¬ keyRank e'.1 < keyRank e.1) :
    (place key v fields).Pairwise fun e e' => ¬ keyRank e'.1 < keyRank e.1 := by
  induction fields with
  | nil => exact List.pairwise_singleton _ _
  | cons e rest ih =>
    obtain ⟨key', v'⟩ := e
    obtain ⟨hhead, htail⟩ := List.pairwise_cons.mp h
    unfold place
    split
    case isTrue hlt =>
      refine List.pairwise_cons.mpr ⟨fun e he => ?_, ih htail⟩
      rcases List.mem_cons.mp ((place_perm key v rest).subset he) with rfl | he
      · exact List.lt_asymm hlt
      · exact hhead e he
    case isFalse hle =>
      refine List.pairwise_cons.mpr ⟨fun e he => ?_, h⟩
      rcases List.mem_cons.mp he with rfl | he
      · exact hle
      · exact fun hlt => hle (List.lt_of_le_of_lt (List.not_lt.mp (hhead e he)) hlt)

theorem Canonical.place {key : String} (v : Value)
    (h : Canonical fields) (hproto : key ≠ PROTO) (hfresh : ∀ e ∈ fields, e.1 ≠ key) :
    Canonical (place key v fields) where
  sorted := sorted_place key v h.sorted
  nodup := by
    refine (((place_perm key v fields).map Prod.fst).nodup_iff).mpr ?_
    refine List.nodup_cons.mpr ⟨fun hmem => ?_, h.nodup⟩
    obtain ⟨e, he, hkey⟩ := List.mem_map.mp hmem
    exact hfresh e he hkey
  no_proto e he := by
    rcases List.mem_cons.mp ((place_perm key v fields).subset he) with rfl | he
    · exact hproto
    · exact h.no_proto e he

theorem canonical_sortFields (fields : List (String × Value)) : Canonical (sortFields fields) := by
  induction fields with
  | nil => exact ⟨List.Pairwise.nil, List.nodup_nil, fun e he => by cases he⟩
  | cons e rest ih =>
    obtain ⟨key, v⟩ := e
    unfold sortFields
    split
    case isTrue => exact ih
    case isFalse hproto =>
      refine (ih.filter _).place (sortValue v) hproto fun e he => ?_
      exact of_decide_eq_true (List.mem_filter.mp he).2

theorem sortFields_of_canonical {fields : List (String × Value)} (h : Canonical fields)
    (hfixed : ∀ e ∈ fields, sortValue e.2 = e.2) : sortFields fields = fields := by
  induction fields with
  | nil => rfl
  | cons e rest ih =>
    obtain ⟨key, v⟩ := e
    have hrest := ih h.tail fun e he => hfixed e (List.mem_cons_of_mem _ he)
    have hkey : key ≠ PROTO := h.no_proto _ (List.mem_cons_self ..)
    have hv : sortValue v = v := hfixed _ (List.mem_cons_self ..)
    have hfresh : rest.filter (fun e => e.1 ≠ key) = rest := by
      refine List.filter_eq_self.mpr fun e he => decide_eq_true fun hdup => ?_
      have hmem : key ∈ rest.map Prod.fst := List.mem_map.mpr ⟨e, he, hdup⟩
      exact (List.nodup_cons.mp h.nodup).1 hmem
    rw [sortFields, if_neg hkey, hrest, hfresh, hv]
    cases rest with
    | nil => rfl
    | cons e rest =>
      have hle := (List.pairwise_cons.mp h.sorted).1 e (List.mem_cons_self ..)
      exact if_neg hle

theorem mem_sortFields {fields : List (String × Value)} {e : String × Value}
    (h : e ∈ sortFields fields) : ∃ v, (e.1, v) ∈ fields ∧ e.2 = sortValue v := by
  induction fields with
  | nil => cases h
  | cons e' rest ih =>
    obtain ⟨key, v⟩ := e'
    have hrest : e ∈ sortFields rest → ∃ w, (e.1, w) ∈ (key, v) :: rest ∧ e.2 = sortValue w := by
      intro he
      obtain ⟨w, hw, hew⟩ := ih he
      exact ⟨w, List.mem_cons_of_mem _ hw, hew⟩
    unfold sortFields at h
    split at h
    case isTrue => exact hrest h
    case isFalse =>
      rcases List.mem_cons.mp ((place_perm _ _ _).subset h) with rfl | he
      · exact ⟨v, List.mem_cons_self .., rfl⟩
      · exact hrest (List.mem_of_mem_filter he)

mutual

theorem sortValue_sortValue : ∀ v : Value, sortValue (sortValue v) = sortValue v
  | .null => rfl
  | .bool _ => rfl
  | .int _ => rfl
  | .num _ => rfl
  | .str _ => rfl
  | .arr items => by simp only [sortValue, sortItems_sortItems items]
  | .obj fields => by
    have hfixed : ∀ e ∈ sortFields fields, sortValue e.2 = e.2 := by
      intro e he
      obtain ⟨v, hv, hev⟩ := mem_sortFields he
      rw [hev]
      exact sortValue_of_mem fields _ hv
    simp only [sortValue, sortFields_of_canonical (canonical_sortFields fields) hfixed]

theorem sortItems_sortItems : ∀ items : List Value, sortItems (sortItems items) = sortItems items
  | [] => rfl
  | v :: items => by simp only [sortItems, sortValue_sortValue v, sortItems_sortItems items]

theorem sortValue_of_mem : ∀ (fields : List (String × Value)), ∀ e ∈ fields,
    sortValue (sortValue e.2) = sortValue e.2
  | [], _, he => by cases he
  | (key, v) :: fields, e, he => by
    rcases List.mem_cons.mp he with rfl | he
    · exact sortValue_sortValue v
    · exact sortValue_of_mem fields e he

end

/-! ## Reading canonical JSON -/

theorem writtenFields_eq_map (fields : List (String × Value)) :
    writtenFields fields = fields.map fun e => (e.1, written e.2) := by
  induction fields with
  | nil => rfl
  | cons e rest ih => rw [writtenFields, ih, List.map_cons]

theorem writtenFields_place (key : String) (v : Value) (fields : List (String × Value)) :
    writtenFields (place key v fields) = place key (written v) (writtenFields fields) := by
  induction fields with
  | nil => rfl
  | cons e rest ih =>
    obtain ⟨key', v'⟩ := e
    simp only [place, writtenFields]
    split
    case isTrue => rw [writtenFields, ih]
    case isFalse => rfl

theorem writtenFields_filter (p : String → Bool) (fields : List (String × Value)) :
    writtenFields (fields.filter fun e => p e.1) =
      (writtenFields fields).filter fun e => p e.1 := by
  rw [writtenFields_eq_map, writtenFields_eq_map, List.filter_map]
  rfl

mutual

theorem sortValue_written : ∀ v : Value, sortValue (written v) = written (sortValue v)
  | .null => rfl
  | .bool _ => rfl
  | .int _ => rfl
  | .num text => by
    simp only [written, sortValue]
    split <;> rfl
  | .str _ => rfl
  | .arr items => by simp only [written, sortValue, sortItems_written items]
  | .obj fields => by simp only [written, sortValue, sortFields_written fields]

theorem sortItems_written : ∀ items : List Value,
    sortItems (writtenItems items) = writtenItems (sortItems items)
  | [] => rfl
  | v :: items => by
    simp only [writtenItems, sortItems, sortValue_written v, sortItems_written items]

theorem sortFields_written : ∀ fields : List (String × Value),
    sortFields (writtenFields fields) = writtenFields (sortFields fields)
  | [] => rfl
  | (key, v) :: fields => by
    simp only [writtenFields, sortFields, sortValue_written v, sortFields_written fields]
    split
    case isTrue => rfl
    case isFalse =>
      rw [writtenFields_place, writtenFields_filter fun k => decide (k ≠ key)]

end

theorem distinctFields_iff (fields : List (String × Value)) :
    DistinctFields fields ↔ ∀ e ∈ fields, DistinctKeys e.2 := by
  induction fields with
  | nil => simp [DistinctFields]
  | cons e rest ih => rw [DistinctFields, ih, List.forall_mem_cons]

mutual

theorem distinctKeys_sortValue : ∀ v : Value, DistinctKeys (sortValue v)
  | .null => trivial
  | .bool _ => trivial
  | .int _ => trivial
  | .num _ => trivial
  | .str _ => trivial
  | .arr items => distinctItems_sortItems items
  | .obj fields => by
    refine ⟨(canonical_sortFields fields).nodup, (distinctFields_iff _).mpr fun e he => ?_⟩
    obtain ⟨v, hv, hev⟩ := mem_sortFields he
    rw [hev]
    exact distinctKeys_of_mem fields _ hv

theorem distinctItems_sortItems : ∀ items : List Value, DistinctItems (sortItems items)
  | [] => trivial
  | v :: items => ⟨distinctKeys_sortValue v, distinctItems_sortItems items⟩

theorem distinctKeys_of_mem : ∀ (fields : List (String × Value)), ∀ e ∈ fields,
    DistinctKeys (sortValue e.2)
  | [], _, he => by cases he
  | (key, v) :: fields, e, he => by
    rcases List.mem_cons.mp he with rfl | he
    · exact distinctKeys_sortValue v
    · exact distinctKeys_of_mem fields e he

end

/-- What `JSON.parse` reads of canonical JSON. -/
def archived (v : Value) : Value := written (sortValue v)

theorem parse_canonicalJson (v : Value) : parse (canonicalJson v) = some (archived v) :=
  parse_stringify (distinctKeys_sortValue v)

theorem canonicalJson_archived (v : Value) : canonicalJson (archived v) = canonicalJson v := by
  rw [canonicalJson, archived, sortValue_written, sortValue_sortValue, stringify_written,
    canonicalJson]

theorem find_archived {fields raw : List (String × Value)} (h : archived (.obj fields) = .obj raw)
    {key : String} (hkey : key ≠ PROTO) :
    JsMap.find key raw = (JsMap.find key fields).map archived := by
  have hraw : writtenFields (sortFields fields) = raw := Json.obj.inj h
  rw [← hraw, find_writtenFields, find_sortFields, if_neg hkey, Option.map_map]
  rfl

theorem find_proto_archived {fields raw : List (String × Value)}
    (h : archived (.obj fields) = .obj raw) : JsMap.find PROTO raw = none := by
  have hraw : writtenFields (sortFields fields) = raw := Json.obj.inj h
  rw [← hraw, find_writtenFields, find_sortFields, if_pos rfl]
  rfl

theorem canonicalJson_map_archived (fields : List (String × Value)) :
    canonicalJson (.obj (fields.map fun e => (e.1, archived e.2))) =
      canonicalJson (.obj fields) := by
  have hsorted : sortFields (fields.map fun e => (e.1, sortValue e.2)) = sortFields fields := by
    induction fields with
    | nil => rfl
    | cons e rest ih => rw [List.map_cons, sortFields, ih, sortValue_sortValue, ← sortFields]
  have hwritten : (fields.map fun e => (e.1, archived e.2)) =
      writtenFields (fields.map fun e => (e.1, sortValue e.2)) := by
    rw [writtenFields_eq_map, List.map_map]
    rfl
  calc canonicalJson (.obj (fields.map fun e => (e.1, archived e.2)))
      = stringify (.obj (writtenFields (sortFields fields))) := by
        rw [hwritten, canonicalJson, sortValue, sortFields_written, hsorted]
    _ = stringify (written (.obj (sortFields fields))) := rfl
    _ = canonicalJson (.obj fields) := stringify_written _

/-! ## Values at a path -/

/-- A step into a value. -/
inductive Step where
  | key (k : String)
  | item (i : Nat)
  deriving DecidableEq

/-- What a value is without what is in it. -/
inductive Leaf where
  | null
  | bool (b : Bool)
  | number (text : String)
  | text (s : String)
  | array (length : Nat)
  | object
  deriving DecidableEq

def leaf : Value → Leaf
  | .null => .null
  | .bool b => .bool b
  | .int n => .number (toString n)
  | .num text => .number text
  | .str s => .text s
  | .arr items => .array items.length
  | .obj _ => .object

/-- What is at a path in the value. -/
def lookup : List Step → Value → Option Leaf
  | [], v => some (leaf v)
  | .key k :: path, .obj fields => (JsMap.find k fields).bind (lookup path)
  | .item i :: path, .arr items => items[i]?.bind (lookup path)
  | _ :: _, _ => none

/-- `JSON.stringify` writes `null` for a number that is not finite. -/
def Leaf.archived : Leaf → Leaf
  | .number t => if isNumeral t then .number t else .null
  | l => l

theorem leaf_archived (v : Value) : leaf (archived v) = (leaf v).archived := by
  cases v with
  | int n => simp only [JsonText.archived, sortValue, written, leaf, Leaf.archived,
      isNumeral_toString, if_true]
  | num text =>
    simp only [JsonText.archived, sortValue, written, leaf, Leaf.archived]
    cases isNumeral text <;> rfl
  | arr items =>
    simp only [JsonText.archived, sortValue, written, leaf, Leaf.archived, sortItems_eq_map,
      writtenItems_eq_map, List.length_map]
  | null | bool _ | str _ | obj _ => rfl

theorem lookup_key (k : String) (path : List Step) (fields : List (String × Value)) :
    lookup (.key k :: path) (.obj fields) = (JsMap.find k fields).bind (lookup path) := rfl

theorem lookup_item (i : Nat) (path : List Step) (items : List Value) :
    lookup (.item i :: path) (.arr items) = items[i]?.bind (lookup path) := rfl

/-- What an archived value has at a path. -/
theorem lookup_archived (path : List Step) (v : Value) :
    lookup path (archived v) =
      if .key PROTO ∈ path then none else (lookup path v).map Leaf.archived := by
  induction path generalizing v with
  | nil => rw [if_neg List.not_mem_nil, lookup, lookup, leaf_archived, Option.map_some]
  | cons s path ih =>
    have hmem : Step.key PROTO ∈ s :: path ↔ s = .key PROTO ∨ .key PROTO ∈ path := by
      rw [List.mem_cons, eq_comm]
    cases v with
    | obj fields =>
      cases s with
      | item i =>
        rw [show lookup (.item i :: path) (.obj fields) = none from rfl, Option.map_none,
          ite_self]
        rfl
      | key k =>
        rw [archived, sortValue, written, lookup_key, lookup_key, find_writtenFields,
          find_sortFields]
        simp only [hmem, Step.key.injEq]
        by_cases hk : k = PROTO
        · rw [if_pos hk, if_pos (.inl hk)]
          rfl
        · rw [if_neg hk]
          cases JsMap.find k fields with
          | none => simp
          | some v =>
            simp only [hk, false_or]
            exact ih v
    | arr items =>
      cases s with
      | key k =>
        rw [show lookup (.key k :: path) (.arr items) = none from rfl, Option.map_none,
          ite_self]
        rfl
      | item i =>
        rw [archived, sortValue, written, lookup_item, lookup_item, writtenItems_eq_map,
          sortItems_eq_map, List.getElem?_map, List.getElem?_map]
        simp only [hmem, reduceCtorEq, false_or]
        cases items[i]? with
        | none => simp
        | some v => exact ih v
    | num text =>
      rw [show lookup (s :: path) (.num text) = none by cases s <;> rfl, Option.map_none,
        ite_self, archived, sortValue, written]
      cases isNumeral text <;> cases s <;> rfl
    | null | bool _ | int _ | str _ =>
      cases s <;> simp [archived, sortValue, written, lookup]

/-- Every number in the value is finite, and no property is named `__proto__`. -/
def Clean (v : Value) : Prop :=
  ∀ path l, lookup path v = some l → .key PROTO ∉ path ∧ l.archived = l

theorem lookup_archived_iff (v : Value) :
    (∀ path, lookup path (archived v) = lookup path v) ↔ Clean v := by
  simp only [lookup_archived]
  constructor
  · intro h path l hl
    have hpath := h path
    rw [hl] at hpath
    split at hpath
    case isTrue => cases hpath
    case isFalse hproto => exact ⟨hproto, Option.some.inj hpath⟩
  · intro h path
    cases hl : lookup path v with
    | none => simp
    | some l =>
      obtain ⟨hproto, hfinite⟩ := h path l hl
      rw [if_neg hproto, Option.map_some, hfinite]

/-! ### Clean values -/

theorem clean_obj_iff (fields : List (String × Value)) :
    Clean (.obj fields) ↔ ∀ k v, JsMap.find k fields = some v → k ≠ PROTO ∧ Clean v := by
  constructor
  · intro h k v hv
    have hbelow : ∀ path l, lookup path v = some l →
        .key PROTO ∉ Step.key k :: path ∧ l.archived = l := by
      intro path l hl
      apply h
      rw [lookup_key, hv]
      exact hl
    constructor
    · rintro rfl
      exact (hbelow [] (leaf v) rfl).1 (List.mem_cons_self ..)
    · intro path l hl
      obtain ⟨hproto, hfinite⟩ := hbelow path l hl
      exact ⟨fun hmem => hproto (List.mem_cons_of_mem _ hmem), hfinite⟩
  · intro h path l hl
    cases path with
    | nil =>
      cases hl
      exact ⟨List.not_mem_nil, rfl⟩
    | cons s path =>
      cases s with
      | item i => cases hl
      | key k =>
        rw [lookup_key] at hl
        obtain ⟨v, hv, hl⟩ := Option.bind_eq_some_iff.mp hl
        obtain ⟨hk, hclean⟩ := h k v hv
        obtain ⟨hproto, hfinite⟩ := hclean path l hl
        refine ⟨fun hmem => ?_, hfinite⟩
        rcases List.mem_cons.mp hmem with heq | hmem
        · exact hk (Step.key.inj heq).symm
        · exact hproto hmem

theorem clean_arr_iff (items : List Value) : Clean (.arr items) ↔ ∀ v ∈ items, Clean v := by
  constructor
  · intro h v hv path l hl
    obtain ⟨i, hi⟩ := List.mem_iff_getElem?.mp hv
    have hitem : lookup (.item i :: path) (.arr items) = some l := by
      rw [lookup_item, hi]
      exact hl
    obtain ⟨hproto, hfinite⟩ := h _ l hitem
    exact ⟨fun hmem => hproto (List.mem_cons_of_mem _ hmem), hfinite⟩
  · intro h path l hl
    cases path with
    | nil =>
      cases hl
      exact ⟨List.not_mem_nil, rfl⟩
    | cons s path =>
      cases s with
      | key k => cases hl
      | item i =>
        rw [lookup_item] at hl
        obtain ⟨v, hv, hl⟩ := Option.bind_eq_some_iff.mp hl
        obtain ⟨hproto, hfinite⟩ := h v (List.mem_of_getElem? hv) path l hl
        refine ⟨fun hmem => ?_, hfinite⟩
        rcases List.mem_cons.mp hmem with heq | hmem
        · cases heq
        · exact hproto hmem

theorem clean_scalar {v : Value} (hscalar : ∀ s path, lookup (s :: path) v = none) :
    Clean v ↔ (leaf v).archived = leaf v := by
  constructor
  · exact fun h => (h [] _ rfl).2
  · intro h path l hl
    cases path with
    | nil =>
      cases hl
      exact ⟨List.not_mem_nil, h⟩
    | cons s path =>
      rw [hscalar] at hl
      cases hl

@[simp] theorem clean_str (s : String) : Clean (.str s) :=
  (clean_scalar fun s _ => by cases s <;> rfl).mpr rfl

@[simp] theorem clean_num_iff (text : String) : Clean (.num text) ↔ isNumeral text = true := by
  rw [clean_scalar fun s _ => by cases s <;> rfl, leaf, Leaf.archived]
  cases isNumeral text with
  | true => simp
  | false => simp

@[simp] theorem clean_int (n : Int) : Clean (.int n) := by
  rw [clean_scalar fun s _ => by cases s <;> rfl, leaf, Leaf.archived, isNumeral_toString]
  rfl

theorem clean_obj_of_nodup {fields : List (String × Value)} (h : (fields.map Prod.fst).Nodup) :
    Clean (.obj fields) ↔ ∀ e ∈ fields, e.1 ≠ PROTO ∧ Clean e.2 := by
  rw [clean_obj_iff]
  constructor
  · exact fun hclean e he => hclean e.1 e.2 ((JsMap.find_eq_some_iff h e.1 e.2).mpr he)
  · exact fun hclean k v hv => hclean (k, v) (JsMap.mem_of_find hv)

end NeuronWeb.JsonText
