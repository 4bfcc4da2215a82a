/-
  Directory/RelayOrder: whether the account that a client finds depends on the order of the
  relays (`resolveAccountFromRelays` of `network/account-resolver.ts`).

  Answers of one account are ranked by `_version` and those of different accounts by
  `createdAt`, each against the best so far.  The two rankings together are not transitive, so
  the order of the answers can decide between accounts.
-/
import NeuronWeb.Directory.Names
import NeuronWeb.Foundation.TwoRankings

set_option autoImplicit false

namespace NeuronWeb

variable {F : Type} [JsNumber F]

/-- The answers that the client weighs. -/
def weighed (P : Primitives F) (T : JsText F) (query : ResolveQuery)
    (answers : List (Option (Json F))) : List (Json F) :=
  (answers.filter fun answer => answer.any (answersQuery P T query)).filterMap id

/-- The account pub of the record that is found, if one is. -/
def resolvedPub (P : Primitives F) (T : JsText F) (query : ResolveQuery)
    (answers : List (Option (Json F))) : Option (Option (Option String)) :=
  (resolveAccountFromRelays P T query answers).map fun best =>
    best.map fun rec => Json.asString (rec.property "pub")

/-- One number is above another. -/
def above (v w : Option F) : Bool := v.any fun v => w.any fun w => JsNumber.lt w v

/-- Records of one account are ranked by `_version`, others by `createdAt`. -/
def accountRule (T : JsText F) : TwoRankings.Rule (Json F) (Option String) where
  kind rec := Json.asString (rec.property "pub")
  higher rec held := above (versionOf T rec) (versionOf T held)
  later rec held := above (createdAtOf T rec) (createdAtOf T held)

/-- The records carry a pub, and different numbers in both fields. -/
structure DistinctRecords (T : JsText F) (recs : List (Json F)) : Prop where
  pub : ∀ rec ∈ recs, (Json.asString (rec.property "pub")).isSome = true
  versions : recs.Pairwise fun rec rec' =>
    (accountRule T).higher rec rec' = true ∨ (accountRule T).higher rec' rec = true
  createdAts : recs.Pairwise fun rec rec' =>
    (accountRule T).later rec rec' = true ∨ (accountRule T).later rec' rec = true

/-- No record is weighed, or one is ahead of all the others: of a higher version than those of
its account, and created after those of other accounts. -/
def OneAhead (T : JsText F) (recs : List (Json F)) : Prop :=
  recs = [] ∨ ∃ rec ∈ recs, ∀ other ∈ recs, other ≠ rec →
    (accountRule T).beats rec other = true

section Order

variable {P : Primitives F} {T : JsText F} {query : ResolveQuery}
  {answers : List (Option (Json F))}

theorem above_eq_true_iff (v w : Option F) : above v w = true ↔
    ∃ x y, v = some x ∧ w = some y ∧ JsNumber.lt y x = true := by
  cases v with
  | none => simp [above]
  | some x =>
    cases w with
    | none => simp [above]
    | some y => simp [above]

theorem above_asymm [OrderedJsNumber F] {v w : Option F} (h : above v w = true) :
    above w v = false := by
  obtain ⟨x, y, rfl, rfl, hlt⟩ := (above_eq_true_iff v w).mp h
  exact OrderedJsNumber.lt_asymm y x hlt

theorem above_trans [OrderedJsNumber F] {u v w : Option F} (huv : above u v = true)
    (hvw : above v w = true) : above u w = true := by
  obtain ⟨x, y, rfl, rfl, hxy⟩ := (above_eq_true_iff u v).mp huv
  obtain ⟨y', z, hy, rfl, hyz⟩ := (above_eq_true_iff _ w).mp hvw
  cases hy
  exact JsNumber.lt_trans hyz hxy

theorem DistinctRecords.ranked [OrderedJsNumber F] {recs : List (Json F)}
    (h : DistinctRecords T recs) : (accountRule T).Ranked recs where
  higher := ⟨fun _ _ _ _ => above_asymm, fun _ _ _ _ _ _ => above_trans, h.versions⟩
  later := ⟨fun _ _ _ _ => above_asymm, fun _ _ _ _ _ _ => above_trans, h.createdAts⟩

theorem accountRule_kind (rec : Json F) :
    (accountRule T).kind rec = Json.asString (rec.property "pub") := rfl

theorem accountRule_higher (rec held : Json F) :
    (accountRule T).higher rec held = above (versionOf T rec) (versionOf T held) := rfl

theorem accountRule_later (rec held : Json F) :
    (accountRule T).later rec held = above (createdAtOf T rec) (createdAtOf T held) := rfl

theorem replaces_eq {rec held : Json F} (hrec : (Json.asString (rec.property "pub")).isSome = true)
    (hheld : (Json.asString (held.property "pub")).isSome = true)
    (hversions : (accountRule T).higher held rec = true ∨ (accountRule T).higher rec held = true)
    (hcreated : (accountRule T).later held rec = true ∨ (accountRule T).later rec held = true) :
    replaces T rec held = some ((accountRule T).beats rec held) := by
  have hsome : ∀ v w : Option F, above w v = true ∨ above v w = true →
      ∃ x y, v = some x ∧ w = some y := by
    intro v w h
    rcases h with h | h
    · obtain ⟨y, x, hw, hv, -⟩ := (above_eq_true_iff w v).mp h
      exact ⟨x, y, hv, hw⟩
    · obtain ⟨x, y, hv, hw, -⟩ := (above_eq_true_iff v w).mp h
      exact ⟨x, y, hv, hw⟩
  obtain ⟨v, w, hv, hw⟩ := hsome (versionOf T rec) (versionOf T held) hversions
  obtain ⟨c, e, hc, he⟩ := hsome (createdAtOf T rec) (createdAtOf T held) hcreated
  have hsame : samePub rec held =
      decide ((accountRule T).kind rec = (accountRule T).kind held) := by
    obtain ⟨p, hp⟩ := Option.isSome_iff_exists.mp hrec
    obtain ⟨q, hq⟩ := Option.isSome_iff_exists.mp hheld
    rw [accountRule_kind, accountRule_kind, hp, hq, samePub, OfAccount.property hp,
      OfAccount.property hq]
    change (p == q) = _
    rw [Bool.eq_iff_iff]
    simp
  rw [replaces, hsame, hv, hw, hc, he, TwoRankings.Rule.beats]
  by_cases hkind : (accountRule T).kind rec = (accountRule T).kind held
  · rw [if_pos (decide_eq_true hkind), if_pos hkind, accountRule_higher, hv, hw]
    rfl
  · rw [if_neg (by simpa using hkind), if_neg hkind, accountRule_later, hc, he]
    rfl

theorem weighed_append (answers : List (Option (Json F))) (answer : Option (Json F)) :
    weighed P T query (answers ++ [answer]) = weighed P T query answers ++
      (answer.filter (answersQuery P T query)).toList := by
  rw [weighed, weighed, List.filter_append, List.filterMap_append]
  cases answer with
  | none => rfl
  | some rec =>
    cases hrec : answersQuery P T query rec with
    | true => simp [hrec, Option.filter]
    | false => simp [hrec, Option.filter]

/-- The client's loop is a contest of the answers it weighs. -/
theorem resolve_eq_stands (h : DistinctRecords T (weighed P T query answers)) :
    resolveAccountFromRelays P T query answers =
      some ((accountRule T).stands (weighed P T query answers)) := by
  induction answers using List.reverseRecOn with
  | nil => rfl
  | append_singleton answers answer ih =>
    rw [weighed_append] at h
    have hbefore : DistinctRecords T (weighed P T query answers) :=
      ⟨fun rec hrec => h.pub rec (List.mem_append_left _ hrec),
        (List.pairwise_append.mp h.versions).1, (List.pairwise_append.mp h.createdAts).1⟩
    have hloop : resolveAccountFromRelays P T query (answers ++ [answer]) =
        (resolveAccountFromRelays P T query answers).bind fun best =>
          weigh P T query best answer := by
      rw [resolveAccountFromRelays, List.foldlM_append]
      refine congrArg _ (funext fun best => ?_)
      exact Option.bind_fun_some (weigh P T query best answer)
    rw [hloop, ih hbefore, Option.bind_some, weighed_append]
    cases answer with
    | none =>
      rw [Option.filter_none, Option.toList_none, List.append_nil]
      rfl
    | some rec =>
      rw [weigh.eq_def]
      dsimp only
      cases hrec : answersQuery P T query rec with
      | false =>
        rw [Option.filter_some, hrec]
        simp
      | true =>
        rw [Option.filter_some, hrec, if_pos rfl, if_pos rfl, Option.toList_some,
          TwoRankings.Rule.stands_append_singleton]
        cases hstands : (accountRule T).stands (weighed P T query answers) with
        | none => rfl
        | some held =>
          have hheld := TwoRankings.Rule.mem_of_stands hstands
          rw [Option.filter_some, hrec, if_pos rfl, Option.toList_some] at h
          have hreplaces := replaces_eq
            (h.pub rec (List.mem_append_right _ (List.mem_singleton_self rec)))
            (h.pub held (List.mem_append_left _ hheld))
            ((List.pairwise_append.mp h.versions).2.2 held hheld rec
              (List.mem_singleton_self rec))
            ((List.pairwise_append.mp h.createdAts).2.2 held hheld rec
              (List.mem_singleton_self rec))
          dsimp only
          rw [hreplaces]
          rfl

theorem filter_eq_map_weighed (answers : List (Option (Json F))) :
    (answers.filter fun answer => answer.any (answersQuery P T query)) =
      (weighed P T query answers).map some := by
  rw [weighed]
  induction answers with
  | nil => rfl
  | cons answer rest ih =>
    cases answer with
    | none => simpa using ih
    | some rec =>
      cases hrec : answersQuery P T query rec with
      | true => simpa [hrec] using ih
      | false => simpa [hrec] using ih

theorem answersQuery_of_mem_weighed {rec : Json F} (h : rec ∈ weighed P T query answers) :
    answersQuery P T query rec = true := by
  obtain ⟨answer, hanswer, hrec⟩ := List.mem_filterMap.mp h
  rw [show answer = some rec from hrec] at hanswer
  exact (List.mem_filter.mp hanswer).2

theorem weighed_perm {answers' : List (Option (Json F))} (h : answers'.Perm answers) :
    (weighed P T query answers').Perm (weighed P T query answers) :=
  (h.filter _).filterMap _

theorem exists_perm_weighed {recs : List (Json F)} (h : recs.Perm (weighed P T query answers)) :
    ∃ answers' : List (Option (Json F)), answers'.Perm answers ∧
      weighed P T query answers' = recs := by
  let rejected := answers.filter fun answer => !answer.any (answersQuery P T query)
  refine ⟨recs.map some ++ rejected, ?_, ?_⟩
  · refine ((h.map some).append_right rejected).trans ?_
    rw [← filter_eq_map_weighed]
    exact List.filter_append_perm _ answers
  · have hkept : (recs.map some).filter (fun answer => answer.any (answersQuery P T query)) =
        recs.map some := by
      refine List.filter_eq_self.mpr fun answer hanswer => ?_
      obtain ⟨rec, hrec, rfl⟩ := List.mem_map.mp hanswer
      exact answersQuery_of_mem_weighed (h.mem_iff.mp hrec)
    have hdropped : rejected.filter (fun answer => answer.any (answersQuery P T query)) = [] := by
      refine List.filter_eq_nil_iff.mpr fun answer hanswer => ?_
      have hnot := (List.mem_filter.mp hanswer).2
      simpa using hnot
    rw [weighed, List.filter_append, hkept, hdropped, List.append_nil, List.filterMap_map]
    exact List.filterMap_some

theorem DistinctRecords.perm {recs recs' : List (Json F)} (h : DistinctRecords T recs)
    (hperm : recs.Perm recs') : DistinctRecords T recs' :=
  ⟨fun rec hrec => h.pub rec (hperm.mem_iff.mpr hrec),
    hperm.pairwise h.versions fun {_ _} hor => hor.symm,
    hperm.pairwise h.createdAts fun {_ _} hor => hor.symm⟩

/-- The same account is found in every order of the answers exactly when one of the records is
ahead of all the others. -/
theorem same_account_in_every_order_iff [OrderedJsNumber F]
    (h : DistinctRecords T (weighed P T query answers)) :
    (∀ answers' : List (Option (Json F)), answers'.Perm answers →
        resolvedPub P T query answers' = resolvedPub P T query answers) ↔
      OneAhead T (weighed P T query answers) := by
  have hpub : ∀ answers' : List (Option (Json F)), answers'.Perm answers →
      resolvedPub P T query answers' =
        some (((accountRule T).stands (weighed P T query answers')).map (accountRule T).kind) := by
    intro answers' hperm
    rw [resolvedPub, resolve_eq_stands (h.perm (weighed_perm hperm).symm), Option.map_some]
    rfl
  refine Iff.trans ?_ h.ranked.kind_const_iff
  constructor
  · intro hsame recs hrecs
    obtain ⟨answers', hperm, hweighed⟩ := exists_perm_weighed hrecs
    have heq := hsame answers' hperm
    rw [hpub answers' hperm, hpub answers (List.Perm.refl _), hweighed, Option.some_inj] at heq
    exact heq
  · intro hsame answers' hperm
    rw [hpub answers' hperm, hpub answers (List.Perm.refl _)]
    exact congrArg some (hsame _ (weighed_perm hperm))

end Order

/-! ## Three records of one name -/

section Samples

open Sample

/-- An account's first record, created last; its second, created first; and a record of another
account, created in between. -/
def threeBobs : List (Option (Json Rat)) :=
  [some (signedRecord "aa" "bob" 3 1 ""), some (signedRecord "aa" "bob" 1 2 ""),
    some (signedRecord "bb" "bob" 2 3 "")]

/-- The order of the three relays decides which account a payment to bob goes to. -/
theorem threeBobs_depend_on_order :
    let reordered := [threeBobs[0], threeBobs[2], threeBobs[1]]
    reordered.Perm threeBobs ∧
      DistinctRecords jsText (weighed primitives jsText (.username "bob") threeBobs) ∧
      resolvedPub primitives jsText (.username "bob") threeBobs = some (some (some "bb")) ∧
      resolvedPub primitives jsText (.username "bob") reordered = some (some (some "aa")) := by
  refine ⟨?_, ⟨?_, ?_, ?_⟩, ?_, ?_⟩
  · exact (List.Perm.swap _ _ _).cons _
  · decide +kernel
  · decide +kernel
  · decide +kernel
  · decide +kernel
  · decide +kernel

/-- The records of a stale relay and of a fresh one. -/
def staleAndFresh : List (Option (Json Rat)) :=
  [some (signedRecord "aa" "bob" 1 31000 ""), none, some (signedRecord "bb" "bob" 2 5 "")]

theorem same_account_of_staleAndFresh :
    DistinctRecords jsText (weighed primitives jsText (.username "bob") staleAndFresh) ∧
      ((∀ answers' : List (Option (Json Rat)), answers'.Perm staleAndFresh →
          resolvedPub primitives jsText (.username "bob") answers' =
            resolvedPub primitives jsText (.username "bob") staleAndFresh) ↔
        OneAhead jsText (weighed primitives jsText (.username "bob") staleAndFresh)) := by
  have hdistinct :
      DistinctRecords jsText (weighed primitives jsText (.username "bob") staleAndFresh) := by
    refine ⟨?_, ?_, ?_⟩
    · decide +kernel
    · decide +kernel
    · decide +kernel
  exact ⟨hdistinct, same_account_in_every_order_iff hdistinct⟩

end Samples

end NeuronWeb
