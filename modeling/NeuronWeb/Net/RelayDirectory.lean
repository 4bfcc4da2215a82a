/-
  Net/RelayDirectory: which relays a peer reserves on, by rendezvous hashing
  (`engine/net/relay-directory.ts`).

  A relay's score for a peer is a hash of both names, and the peer takes the relays that score
  highest.  So a relay that joins or leaves changes the assignment at its own rank only, and the
  order in which relays joined does not show.
-/
import Mathlib.Data.String.Basic
import NeuronWeb.Foundation.Ranked
import NeuronWeb.Foundation.Run
import NeuronWeb.Sample

set_option autoImplicit false

namespace NeuronWeb

variable {F : Type}

structure RelayDirectory where
  relays : JsSet Hex

/-- A relay and what it scores for the peer asked about. -/
structure ScoredRelay where
  relay : Hex
  score : Hex

/-- The comparator of `assign`. -/
def compareScores (a b : ScoredRelay) : Int :=
  if a.score > b.score then -1 else if a.score < b.score then 1 else 0

/-- The score of a relay for a peer. -/
def hrwScore (P : Primitives F) (peerId relay : Hex) : Hex :=
  hashHex P (utf8ToBytes (relay ++ ":" ++ peerId))

namespace RelayDirectory

/-- A directory without relays. -/
def new : RelayDirectory := ⟨.empty⟩

def add (d : RelayDirectory) (relayId : Hex) : RelayDirectory := ⟨JsSet.add d.relays relayId⟩

def remove (d : RelayDirectory) (relayId : Hex) : RelayDirectory := ⟨d.relays.delete relayId⟩

def size (d : RelayDirectory) : Nat := d.relays.keys.length

def list (d : RelayDirectory) : List Hex := d.relays.keys

/-- The `replication` relays a peer should reserve on, highest HRW score first; two of them
unless the caller says. -/
def assign (P : Primitives F) (d : RelayDirectory) (peerId : Hex) (replication : Option Nat) :
    List Hex :=
  let scored := d.relays.keys.map fun relay => ScoredRelay.mk relay (hrwScore P peerId relay)
  let sorted := scored.mergeSort fun a b => decide (compareScores a b ≤ 0)
  (sorted.take (min (replication.getD 2) scored.length)).map ScoredRelay.relay

end RelayDirectory

/-! ## The assignment as a choice of the best -/

section Best

variable {P : Primitives F} {d d' : RelayDirectory} {peerId r : Hex} {replication : Option Nat}

theorem compareScores_le_zero_iff (a b : ScoredRelay) :
    compareScores a b ≤ 0 ↔ b.score ≤ a.score := by
  unfold compareScores
  split
  case isTrue h => exact iff_of_true (by omega) (le_of_lt h)
  case isFalse h =>
    split
    case isTrue hlt => exact iff_of_false (by omega) (not_le.mpr hlt)
    case isFalse hge => exact iff_of_true le_rfl (not_lt.mp hge)

theorem assign_eq_best (P : Primitives F) (d : RelayDirectory) (peerId : Hex)
    (replication : Option Nat) :
    d.assign P peerId replication =
      Ranked.best (hrwScore P peerId) (replication.getD 2) d.list := by
  let scoredRelay : Hex → ScoredRelay := fun relay => ⟨relay, hrwScore P peerId relay⟩
  have hcompare : ∀ a b : Hex, decide (hrwScore P peerId b ≤ hrwScore P peerId a) =
      decide (compareScores (scoredRelay a) (scoredRelay b) ≤ 0) := fun a b =>
    decide_eq_decide.mpr (compareScores_le_zero_iff (scoredRelay a) (scoredRelay b)).symm
  have hsort : (d.list.map scoredRelay).mergeSort (fun a b => decide (compareScores a b ≤ 0)) =
      (Ranked.ranked (hrwScore P peerId) d.list).map scoredRelay :=
    (List.map_mergeSort fun a _ b _ => hcompare a b).symm
  have hnames : ∀ l : List Hex, (l.map scoredRelay).map ScoredRelay.relay = l := by
    intro l
    rw [List.map_map]
    exact List.map_id l
  have hassign : d.assign P peerId replication =
      (((d.list.map scoredRelay).mergeSort fun a b => decide (compareScores a b ≤ 0)).take
        (min (replication.getD 2) (d.list.map scoredRelay).length)).map ScoredRelay.relay := rfl
  rw [hassign, hsort, ← List.map_take, hnames, Ranked.best, List.length_map, ← List.take_take,
    List.take_of_length_le (i := d.list.length) (Ranked.length_ranked _ _).le]

theorem mem_list_add (d : RelayDirectory) (r relay : Hex) :
    relay ∈ (d.add r).list ↔ relay = r ∨ relay ∈ d.list := by
  rw [RelayDirectory.list, RelayDirectory.list, ← JsSet.has_iff_mem_keys,
    ← JsSet.has_iff_mem_keys, RelayDirectory.add, JsSet.has_add, Bool.or_eq_true,
    decide_eq_true_iff, eq_comm]

theorem mem_list_remove (d : RelayDirectory) (r relay : Hex) :
    relay ∈ (d.remove r).list ↔ relay ≠ r ∧ relay ∈ d.list := by
  rw [RelayDirectory.list, RelayDirectory.list, JsMap.mem_keys_iff, JsMap.mem_keys_iff,
    RelayDirectory.remove, JsMap.get?_delete]
  split
  case isTrue heq =>
    refine iff_of_false ?_ fun h => h.1 heq.symm
    rintro ⟨v, hv⟩
    cases hv
  case isFalse hne => exact (and_iff_right (Ne.symm hne)).symm

theorem list_add_perm (hr : r ∉ d.list) : (d.add r).list.Perm (r :: d.list) := by
  refine (List.perm_ext_iff_of_nodup (d.add r).relays.nodup
    (List.nodup_cons.mpr ⟨hr, d.relays.nodup⟩)).mpr fun relay => ?_
  exact (mem_list_add d r relay).trans List.mem_cons.symm

theorem assign_congr (h : Ranked.Distinct (hrwScore P peerId) d.list)
    (hsame : ∀ relay, relay ∈ d.list ↔ relay ∈ d'.list) :
    d.assign P peerId replication = d'.assign P peerId replication := by
  have hperm : d.list.Perm d'.list :=
    (List.perm_ext_iff_of_nodup d.relays.nodup d'.relays.nodup).mpr hsame
  rw [assign_eq_best, assign_eq_best, Ranked.best, Ranked.best, Ranked.ranked_congr h hperm]

end Best

/-! ## A relay that joins or leaves -/

/-- The two ways a directory changes. -/
inductive DirectoryCall
  | add (relayId : Hex)
  | remove (relayId : Hex)

namespace RelayDirectory

def step (d : RelayDirectory) : DirectoryCall → RelayDirectory
  | .add relayId => d.add relayId
  | .remove relayId => d.remove relayId

end RelayDirectory

section Reshuffle

variable {P : Primitives F} {d : RelayDirectory} {peerId r : Hex} {k : Nat}

/-- A relay that joins is put at the rank of its score, and at most the last relay goes; when
it leaves, the old answer is back; and what matters of the calls before is only which relays
they leave in the directory. -/
theorem assign_reshuffles_minimally (hr : r ∉ d.list)
    (h : Ranked.Distinct (hrwScore P peerId) (r :: d.list)) :
    Ranked.Inserted (hrwScore P peerId) k d.list r (d.assign P peerId (some k))
        ((d.add r).assign P peerId (some k)) ∧
      ((d.add r).remove r).assign P peerId (some k) = d.assign P peerId (some k) ∧
      ∀ calls : List DirectoryCall,
        let reached := Run.final RelayDirectory.step RelayDirectory.new calls
        ((∀ relay, relay ∈ reached.list ↔ relay ∈ d.list) →
          reached.assign P peerId (some k) = d.assign P peerId (some k)) ∧
        ((∀ relay, relay ∈ reached.list ↔ relay ∈ (d.add r).list) →
          reached.assign P peerId (some k) = (d.add r).assign P peerId (some k)) := by
  have hadd : Ranked.Distinct (hrwScore P peerId) (d.add r).list :=
    h.perm (list_add_perm hr).symm
  refine ⟨?_, ?_, fun calls => ⟨fun hsame => ?_, fun hsame => ?_⟩⟩
  · rw [assign_eq_best, assign_eq_best, Ranked.best.eq_def _ _ (d.add r).list,
      Ranked.ranked_congr hadd (list_add_perm hr)]
    exact Ranked.inserted_best hr h
  · refine (assign_congr h.of_cons fun relay => ?_).symm
    rw [mem_list_remove, mem_list_add]
    constructor
    · intro hmem
      refine ⟨?_, .inr hmem⟩
      rintro rfl
      exact hr hmem
    · rintro ⟨hne, hmem⟩
      exact hmem.resolve_left hne
  · exact (assign_congr h.of_cons fun relay => (hsame relay).symm).symm
  · exact (assign_congr hadd fun relay => (hsame relay).symm).symm

theorem assign_reshuffles_minimally_of_three :
    let d := ((RelayDirectory.new.add "aa").add "bb").add "cc"
    let score := hrwScore Sample.primitives "peer"
    "dd" ∉ d.list ∧ Ranked.Distinct score ("dd" :: d.list) ∧
      Ranked.Inserted score 2 d.list "dd" (d.assign Sample.primitives "peer" (some 2))
        ((d.add "dd").assign Sample.primitives "peer" (some 2)) := by
  have hnew : "dd" ∉ (((RelayDirectory.new.add "aa").add "bb").add "cc").list := by
    decide +kernel
  have hdistinct : Ranked.Distinct (hrwScore Sample.primitives "peer")
      ("dd" :: (((RelayDirectory.new.add "aa").add "bb").add "cc").list) := by
    unfold Ranked.Distinct
    decide +kernel
  exact ⟨hnew, hdistinct, (assign_reshuffles_minimally hnew hdistinct).1⟩

end Reshuffle

end NeuronWeb
