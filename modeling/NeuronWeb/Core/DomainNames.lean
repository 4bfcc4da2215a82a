/-
  Core/DomainNames: the names of accounts and of their sub-accounts.

  A root name has no dot, and the name of a sub-account is a root name, one dot and a label.
  The parser therefore never takes a root name for a sub-account's or the other way round,
  which is what keeps one human from posing as another's device.  A string is the list of
  its UTF-16 code units: every string of the source is one.
-/
import NeuronWeb.Foundation.CharClass

set_option autoImplicit false

namespace NeuronWeb.DomainNames

open RegularExpression CharClass

/-- A string, as its UTF-16 code units. -/
abbrev JsString := List UInt16

/-- The code unit of a character of the basic plane. -/
def unit (c : Char) : UInt16 := UInt16.ofNat c.toNat

def MAX_LABEL_LENGTH : Nat := 32

def MAX_ROOT_LENGTH : Nat := 32

/-- `[a-z0-9]`. -/
def ALNUM : List UInt16 := range (unit 'a') (unit 'z') ++ range (unit '0') (unit '9')

/-- `[a-z0-9-]`. -/
def ALNUM_HYPHEN : List UInt16 := ALNUM ++ [unit '-']

/-- `/^[a-z0-9]([a-z0-9-]*[a-z0-9])?$/`. -/
def NAME_RE : RegularExpression UInt16 :=
  oneOf ALNUM * optional (star (oneOf ALNUM_HYPHEN) * oneOf ALNUM)

/-- Is this a valid root (human) username?  Dots are forbidden here. -/
def isValidRootName (name : JsString) : Bool :=
  if name.length = 0 ∨ MAX_ROOT_LENGTH < name.length then false
  else if unit '.' ∈ name then false
  else NAME_RE.rmatch name

/-- Is this a valid sub-account label, the part after the dot? -/
def isValidLabel (label : JsString) : Bool :=
  if label.length = 0 ∨ MAX_LABEL_LENGTH < label.length then false
  else NAME_RE.rmatch label

/-- Build a sub-account name, or `none` if either part is invalid. -/
def subAccountName (rootName label : JsString) : Option JsString :=
  if !isValidRootName rootName || !isValidLabel label then none
  else some (rootName ++ unit '.' :: label)

structure ParsedName where
  root : JsString
  /-- Undefined for a root account. -/
  label : Option JsString
  deriving DecidableEq, Repr, Inhabited

/-- Split a name into its root and optional label. -/
def parseName (name : JsString) : Option ParsedName :=
  match name.splitOn (unit '.') with
  | [root] => if isValidRootName root then some ⟨root, none⟩ else none
  | [root, label] =>
    if !isValidRootName root || !isValidLabel label then none else some ⟨root, some label⟩
  | _ => none

/-- Does this name belong to `rootName`'s namespace? -/
def isUnderRoot (name rootName : JsString) : Bool :=
  match parseName name with
  | some p => p.root = rootName && p.label.isSome
  | none => false

/-! ## Valid parts -/

/-- A lowercase letter or a digit. -/
def Alphanumeric (u : UInt16) : Prop :=
  unit 'a' ≤ u ∧ u ≤ unit 'z' ∨ unit '0' ≤ u ∧ u ≤ unit '9'

/-- 1 to 32 lowercase letters, digits and hyphens, neither starting nor ending with a hyphen. -/
structure ValidPart (part : JsString) : Prop where
  nonempty : 1 ≤ part.length
  bounded : part.length ≤ 32
  characters : ∀ u ∈ part, Alphanumeric u ∨ u = unit '-'
  starts : part.head? ≠ some (unit '-')
  ends : part.getLast? ≠ some (unit '-')

theorem mem_ALNUM {u : UInt16} : u ∈ ALNUM ↔ Alphanumeric u := by
  rw [ALNUM, List.mem_append, mem_range (by decide), mem_range (by decide), Alphanumeric]

theorem mem_ALNUM_HYPHEN {u : UInt16} : u ∈ ALNUM_HYPHEN ↔ Alphanumeric u ∨ u = unit '-' := by
  rw [ALNUM_HYPHEN, List.mem_append, mem_ALNUM, List.mem_singleton]

theorem not_alphanumeric_hyphen : ¬ Alphanumeric (unit '-') := by
  rw [Alphanumeric]
  decide

theorem not_alphanumeric_dot : ¬ Alphanumeric (unit '.') := by
  rw [Alphanumeric]
  decide

theorem name_re_iff (part : JsString) : NAME_RE.rmatch part = true ↔
    part ≠ [] ∧ (∀ u ∈ part, Alphanumeric u ∨ u = unit '-') ∧
      part.head? ≠ some (unit '-') ∧ part.getLast? ≠ some (unit '-') := by
  have hedge : ∀ u ∈ ALNUM, u ∈ ALNUM_HYPHEN := fun u hu => List.mem_append_left _ hu
  rw [NAME_RE, framed_rmatch_iff ALNUM ALNUM_HYPHEN part hedge]
  constructor
  · rintro ⟨⟨c, hc, hhead⟩, ⟨d, hd, hlast⟩, hinner⟩
    refine ⟨?_, fun u hu => mem_ALNUM_HYPHEN.mp (hinner u hu), ?_, ?_⟩
    · rintro rfl
      cases hhead
    · rw [hhead]
      rintro heq
      cases heq
      exact not_alphanumeric_hyphen (mem_ALNUM.mp hc)
    · rw [hlast]
      rintro heq
      cases heq
      exact not_alphanumeric_hyphen (mem_ALNUM.mp hd)
  · rintro ⟨hne, hcharacters, hstarts, hends⟩
    refine ⟨⟨part.head hne, ?_, List.head?_eq_some_head hne⟩,
      ⟨part.getLast hne, ?_, List.getLast?_eq_some_getLast hne⟩,
      fun u hu => mem_ALNUM_HYPHEN.mpr (hcharacters u hu)⟩
    · refine mem_ALNUM.mpr ((hcharacters _ (List.head_mem hne)).resolve_right fun heq => ?_)
      rw [List.head?_eq_some_head hne, heq] at hstarts
      exact hstarts rfl
    · refine mem_ALNUM.mpr ((hcharacters _ (List.getLast_mem hne)).resolve_right fun heq => ?_)
      rw [List.getLast?_eq_some_getLast hne, heq] at hends
      exact hends rfl

theorem ValidPart.ne_nil {part : JsString} (h : ValidPart part) : part ≠ [] := by
  rintro rfl
  exact absurd h.nonempty (by decide)

theorem ValidPart.no_dot {part : JsString} (h : ValidPart part) : unit '.' ∉ part := by
  intro hdot
  rcases h.characters _ hdot with halnum | hhyphen
  · exact not_alphanumeric_dot halnum
  · exact absurd hhyphen (by decide)

theorem validPart_iff (part : JsString) : ValidPart part ↔
    ¬ (part.length = 0 ∨ 32 < part.length) ∧ NAME_RE.rmatch part = true := by
  rw [name_re_iff, not_or, Nat.not_lt]
  constructor
  · intro h
    exact ⟨⟨Nat.one_le_iff_ne_zero.mp h.nonempty, h.bounded⟩, h.ne_nil, h.characters, h.starts,
      h.ends⟩
  · rintro ⟨⟨hnonempty, hbounded⟩, -, hcharacters, hstarts, hends⟩
    exact ⟨Nat.one_le_iff_ne_zero.mpr hnonempty, hbounded, hcharacters, hstarts, hends⟩

theorem isValidLabel_iff (label : JsString) : isValidLabel label = true ↔ ValidPart label := by
  rw [validPart_iff, isValidLabel]
  by_cases hlength : label.length = 0 ∨ MAX_LABEL_LENGTH < label.length
  · rw [if_pos hlength]
    exact iff_of_false Bool.false_ne_true fun h => h.1 hlength
  · rw [if_neg hlength]
    exact (and_iff_right hlength).symm

theorem isValidRootName_iff (name : JsString) : isValidRootName name = true ↔ ValidPart name := by
  by_cases hlength : name.length = 0 ∨ MAX_ROOT_LENGTH < name.length
  · rw [isValidRootName, if_pos hlength, validPart_iff]
    exact iff_of_false Bool.false_ne_true fun h => h.1 hlength
  · rw [isValidRootName, if_neg hlength]
    by_cases hdot : unit '.' ∈ name
    · rw [if_pos hdot]
      exact iff_of_false Bool.false_ne_true fun h => h.no_dot hdot
    · rw [if_neg hdot, validPart_iff]
      exact (and_iff_right hlength).symm

/-! ## Parsing -/

theorem subAccountName_eq_some {root label name : JsString} :
    subAccountName root label = some name ↔
      ValidPart root ∧ ValidPart label ∧ name = root ++ unit '.' :: label := by
  rw [subAccountName, ← isValidRootName_iff, ← isValidLabel_iff]
  cases isValidRootName root with
  | false => simp
  | true =>
    cases isValidLabel label with
    | false => simp
    | true => simp [eq_comm]

theorem parseName_root {root : JsString} (h : ValidPart root) :
    parseName root = some ⟨root, none⟩ := by
  rw [parseName, List.splitOn_eq_singleton h.no_dot]
  simp only
  rw [if_pos ((isValidRootName_iff root).mpr h)]

theorem parseName_sub {root label : JsString} (hroot : ValidPart root) (hlabel : ValidPart label) :
    parseName (root ++ unit '.' :: label) = some ⟨root, some label⟩ := by
  rw [parseName, List.splitOn_append_cons_self_of_not_mem hroot.no_dot,
    List.splitOn_eq_singleton hlabel.no_dot]
  simp only
  rw [(isValidRootName_iff root).mpr hroot, (isValidLabel_iff label).mpr hlabel]
  rfl

theorem parseName_cases {name : JsString} {p : ParsedName} (h : parseName name = some p) :
    ValidPart name ∧ p = ⟨name, none⟩ ∨
      ∃ root label, ValidPart root ∧ ValidPart label ∧ name = root ++ unit '.' :: label ∧
        p = ⟨root, some label⟩ := by
  have hjoin : [unit '.'].intercalate (name.splitOn (unit '.')) = name :=
    List.intercalate_splitOn (unit '.')
  unfold parseName at h
  split at h
  · rename_i root hsplit
    rw [hsplit, List.intercalate_singleton] at hjoin
    subst hjoin
    split at h
    · rename_i hvalid
      cases h
      exact .inl ⟨(isValidRootName_iff _).mp hvalid, rfl⟩
    · cases h
  · rename_i root label hsplit
    rw [hsplit] at hjoin
    split at h
    · cases h
    · rename_i hvalid
      rw [Bool.or_eq_true, not_or, Bool.not_eq_true', Bool.not_eq_true', Bool.not_eq_false,
        Bool.not_eq_false] at hvalid
      cases h
      refine .inr ⟨root, label, (isValidRootName_iff _).mp hvalid.1,
        (isValidLabel_iff _).mp hvalid.2, ?_, rfl⟩
      rw [← hjoin]
      simp [List.intercalate]
  · cases h

/-- The parser accepts exactly the grammar, inverts the construction of names, never takes a root
name for the name of a sub-account, and places under a root exactly its sub-accounts. -/
theorem names_parse :
    (∀ part, isValidRootName part = true ↔ ValidPart part) ∧
    (∀ part, isValidLabel part = true ↔ ValidPart part) ∧
    (∀ name, (parseName name).isSome = true ↔
      isValidRootName name = true ∨ ∃ root label, isValidRootName root = true ∧
        isValidLabel label = true ∧ name = root ++ unit '.' :: label) ∧
    (∀ root label, isValidRootName root = true → isValidLabel label = true →
      (subAccountName root label).bind parseName = some ⟨root, some label⟩) ∧
    (∀ name root label, parseName name = some ⟨root, some label⟩ →
      subAccountName root label = some name) ∧
    (∀ name root label, isValidRootName name = true → subAccountName root label ≠ some name) ∧
    (∀ name root, isUnderRoot name root = true ↔
      ∃ label, isValidLabel label = true ∧ subAccountName root label = some name) := by
  refine ⟨isValidRootName_iff, isValidLabel_iff, ?_⟩
  simp only [isValidRootName_iff, isValidLabel_iff]
  refine ⟨?_, ?_, ?_, ?_, ?_⟩
  · intro name
    rw [Option.isSome_iff_exists]
    constructor
    · rintro ⟨p, hp⟩
      rcases parseName_cases hp with ⟨hroot, -⟩ | ⟨root, label, hroot, hlabel, hname, -⟩
      · exact .inl hroot
      · exact .inr ⟨root, label, hroot, hlabel, hname⟩
    · rintro (hroot | ⟨root, label, hroot, hlabel, rfl⟩)
      · exact ⟨_, parseName_root hroot⟩
      · exact ⟨_, parseName_sub hroot hlabel⟩
  · intro root label hroot hlabel
    rw [subAccountName_eq_some.mpr ⟨hroot, hlabel, rfl⟩, Option.bind_some]
    exact parseName_sub hroot hlabel
  · intro name root label hparse
    rcases parseName_cases hparse with ⟨-, hp⟩ | ⟨root', label', hroot, hlabel, hname, hp⟩
    · cases hp
    · cases hp
      exact subAccountName_eq_some.mpr ⟨hroot, hlabel, hname⟩
  · intro name root label hvalid hname
    obtain ⟨-, -, rfl⟩ := subAccountName_eq_some.mp hname
    exact hvalid.no_dot (List.mem_append_right _ List.mem_cons_self)
  · intro name root
    unfold isUnderRoot
    constructor
    · intro hunder
      cases hparse : parseName name with
      | none =>
        rw [hparse] at hunder
        cases hunder
      | some p =>
        rw [hparse] at hunder
        rcases parseName_cases hparse with ⟨-, rfl⟩ | ⟨root', label, hroot, hlabel, hname, rfl⟩
        · simp only [Option.isSome_none, Bool.and_false, Bool.false_eq_true] at hunder
        · simp only [Bool.and_eq_true, decide_eq_true_iff] at hunder
          obtain ⟨rfl, -⟩ := hunder
          exact ⟨label, hlabel, subAccountName_eq_some.mpr ⟨hroot, hlabel, hname⟩⟩
    · rintro ⟨label, hlabel, hname⟩
      obtain ⟨hroot, -, rfl⟩ := subAccountName_eq_some.mp hname
      rw [parseName_sub hroot hlabel]
      simp

end NeuronWeb.DomainNames
