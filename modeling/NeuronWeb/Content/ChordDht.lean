/-
  Content/ChordDht: provider records on a ring of nodes, and how a look-up is routed
  (`engine/content/dht.ts`).

  Nodes and CIDs are hashed onto a ring of 32 bits.  A node knows its successor and 32 fingers,
  the first nodes a power of two ahead; a look-up goes to the farthest finger before the target
  until the target lies between a node and its successor.  Every hop at least halves what is
  still ahead.
-/
import NeuronWeb.Foundation.Clockwise
import NeuronWeb.Sample
import Mathlib.Data.List.Dedup
import Mathlib.Data.List.Sort
import Mathlib.Data.Nat.ModEq

set_option autoImplicit false

namespace NeuronWeb

variable {F : Type}

/-- `RING_BITS`. -/
def ringBits : Nat := 32

/-- The keys of the ring. -/
abbrev RingKey := Fin (2 ^ 32)

structure RingNode where
  id : Hex
  key : RingKey
  /-- The position on the sorted ring; before `build`, which sets it, the source has `-1`. -/
  index : Nat
  /-- `fingers[i]` is the index of the successor of `key + 2 ^ i`. -/
  fingers : List Nat

/-- The first four bytes of the hash, as a number. -/
def ringKey (P : Primitives F) (s : String) : RingKey :=
  let h := P.sha256 (utf8ToBytes s)
  let byte := fun i => (h.getD i 0).toNat
  Fin.ofNat (2 ^ 32) (byte 0 <<< 24 ||| byte 1 <<< 16 ||| byte 2 <<< 8 ||| byte 3)

/-- `x ∈ (a, b]` on the modular ring. -/
def inOpenClosed (x a b : RingKey) : Bool :=
  if a = b then true
  else if a < b then decide (x > a) && decide (x ≤ b) else decide (x > a) || decide (x ≤ b)

/-- `x ∈ (a, b)` on the modular ring. -/
def inOpenOpen (x a b : RingKey) : Bool :=
  if a = b then decide (x ≠ a)
  else if a < b then decide (x > a) && decide (x < b) else decide (x > a) || decide (x < b)

/-! ## The ring -/

/-- The loop of `successorIndex`: the first position with a key of at least `target`.  The
first argument bounds the number of halvings. -/
def bisect (nodes : List RingNode) (target : RingKey) : Nat → Nat → Nat → Nat
  | 0, lo, _ => lo
  | fuel + 1, lo, hi =>
    if lo < hi then
      let mid := (lo + hi) / 2
      if (nodes[mid]?).any fun n => decide (n.key ≥ target) then bisect nodes target fuel lo mid
      else bisect nodes target fuel (mid + 1) hi
    else lo

def successorIndex (nodes : List RingNode) (target : RingKey) : Nat :=
  bisect nodes target nodes.length 0 nodes.length % nodes.length

/-- The key `2 ^ i` ahead. -/
def fingerStart (key : RingKey) (i : Nat) : RingKey := Fin.ofNat (2 ^ 32) (key.val + 2 ^ i)

structure FindResult where
  providers : List Hex
  hops : Nat

/-- Where a look-up ends. -/
structure Found where
  node : RingNode
  hops : Nat
  /-- The loop was left because its guard was exceeded. -/
  guardFired : Bool

structure ChordDht where
  k : Nat
  nodes : List RingNode
  built : Bool
  providers : JsMap String (JsSet Hex)
  nodeIndex : JsMap Hex (JsSet String)

namespace ChordDht

def new (k : Nat) : ChordDht := ⟨k, [], false, .empty, .empty⟩

/-- `none` when the ring is built already. -/
def addNode (P : Primitives F) (d : ChordDht) (id : Hex) : Option ChordDht :=
  if d.built then none else some { d with nodes := d.nodes ++ [⟨id, ringKey P id, 0, []⟩] }

/-- The nodes in order of their keys, each with its position. -/
def sortedNodes (d : ChordDht) : List RingNode :=
  (d.nodes.mergeSort fun a b => decide (a.key ≤ b.key)).mapIdx fun i n => { n with index := i }

/-- Sort the ring and precompute finger tables. -/
def build (d : ChordDht) : ChordDht :=
  let sorted := d.sortedNodes
  { d with
    nodes := sorted.map fun n =>
      { n with fingers := (List.range ringBits).map fun i =>
          successorIndex sorted (fingerStart n.key i) }
    nodeIndex := sorted.foldl (fun index n => index.set n.id .empty) d.nodeIndex
    built := true }

def successorOf (d : ChordDht) (n : RingNode) : Option RingNode :=
  d.nodes[(n.index + 1) % d.nodes.length]?

/-- The loop of `closestPreceding` over the fingers below `i`, the highest first; `none` when
a finger is missing. -/
def closestBelow (d : ChordDht) (n : RingNode) (target : RingKey) : Nat → Option RingNode
  | 0 => some n
  | i + 1 =>
    (n.fingers[i]?).bind fun j => (d.nodes[j]?).bind fun f =>
      if inOpenOpen f.key n.key target then some f else d.closestBelow n target i

def closestPreceding (d : ChordDht) (n : RingNode) (target : RingKey) : Option RingNode :=
  d.closestBelow n target ringBits

/-- The loop of `findSuccessor`, with the hops that its guard still lets through. -/
def findFrom (d : ChordDht) (target : RingKey) (left : Nat) (n : RingNode) (hops : Nat) :
    Option Found :=
  (d.successorOf n).bind fun s =>
    if inOpenClosed target n.key s.key then some ⟨s, hops, false⟩
    else
      (d.closestPreceding n target).bind fun c =>
        if c.index = n.index then some ⟨s, hops, false⟩
        else
          match left with
          | 0 => (d.successorOf c).map fun s => ⟨s, hops + 1, true⟩
          | left + 1 => d.findFrom target left c (hops + 1)

def findSuccessor (d : ChordDht) (start : RingNode) (target : RingKey) : Option Found :=
  d.findFrom target (2 * d.nodes.length + 2) start 0

/-- The nodes responsible for `key`: its successor and the next `k - 1` clockwise. -/
def responsibleNodes (d : ChordDht) (key : RingKey) : List RingNode :=
  let start := successorIndex d.nodes key
  (List.range (min d.k d.nodes.length)).filterMap fun i =>
    d.nodes[(start + i) % d.nodes.length]?

/-- `this.nodeIndex.get(n.id)!.add(cid)`. -/
def indexAt (cid : String) (index : JsMap Hex (JsSet String)) (n : RingNode) :
    Option (JsMap Hex (JsSet String)) :=
  (index.get? n.id).map fun cids => index.set n.id (JsSet.add cids cid)

/-- Announce that `providerId` holds `cid`; `none` when the ring is not built or a responsible
node has no index. -/
def provide (P : Primitives F) (d : ChordDht) (cid : String) (providerId : Hex) :
    Option ChordDht :=
  if d.built then
    ((d.responsibleNodes (ringKey P cid)).foldlM (indexAt cid) d.nodeIndex).map fun nodeIndex =>
      { d with
        providers := d.providers.set cid
          (JsSet.add ((d.providers.get? cid).getD .empty) providerId)
        nodeIndex := nodeIndex }
  else none

/-- Discover providers of `cid`, routing from `fromId`. -/
def findProviders (P : Primitives F) (d : ChordDht) (cid : String) (fromId : Hex) :
    Option FindResult :=
  if d.built then
    (((d.nodes.find? fun n => n.id == fromId).or d.nodes[0]?).bind fun start =>
      d.findSuccessor start (ringKey P cid)).map fun found =>
        ⟨(((d.providers.get? cid).getD .empty).keys), found.hops⟩
  else none

/-- Number of provider records a node is responsible for holding. -/
def indexSize (d : ChordDht) (nodeId : Hex) : Nat :=
  ((d.nodeIndex.get? nodeId).map fun cids => cids.keys.length).getD 0

end ChordDht

/-! ## The binary search -/

section Search

variable {nodes : List RingNode} {target : RingKey}

theorem key_le_key (hsorted : nodes.Pairwise fun a b => a.key ≤ b.key) {i j : Nat}
    {m n : RingNode} (hm : nodes[i]? = some m) (hn : nodes[j]? = some n) (hij : i ≤ j) :
    m.key ≤ n.key := by
  obtain ⟨hi, rfl⟩ := List.getElem?_eq_some_iff.mp hm
  obtain ⟨hj, rfl⟩ := List.getElem?_eq_some_iff.mp hn
  rcases Nat.lt_or_eq_of_le hij with hlt | rfl
  · exact List.pairwise_iff_getElem.mp hsorted i j hi hj hlt
  · exact le_rfl

/-- What the halvings keep: below `lo` the keys are too small, from `hi` on they are not. -/
structure Bisected (nodes : List RingNode) (target : RingKey) (lo hi : Nat) : Prop where
  le : lo ≤ hi
  le_length : hi ≤ nodes.length
  below : ∀ i n, nodes[i]? = some n → i < lo → n.key < target
  above : ∀ i n, nodes[i]? = some n → hi ≤ i → target ≤ n.key

theorem bisected_bisect (hsorted : nodes.Pairwise fun a b => a.key ≤ b.key) {fuel lo hi : Nat}
    (h : Bisected nodes target lo hi) (hfuel : hi - lo ≤ fuel) :
    Bisected nodes target (bisect nodes target fuel lo hi) (bisect nodes target fuel lo hi) := by
  induction fuel generalizing lo hi with
  | zero =>
    have heq : hi = lo := by
      have hle := h.le
      omega
    rw [bisect]
    exact heq ▸ h
  | succ fuel ih =>
    have hle := h.le
    have hlen := h.le_length
    rw [bisect]
    split
    case isFalse hge =>
      have heq : hi = lo := by omega
      exact heq ▸ h
    case isTrue hlt =>
      obtain ⟨m, hm⟩ : ∃ m, nodes[(lo + hi) / 2]? = some m :=
        ⟨_, List.getElem?_eq_getElem (by omega)⟩
      dsimp only
      rw [hm, Option.any_some]
      split
      case isTrue hge =>
        refine ih ⟨by omega, by omega, h.below, fun i n hn hi => ?_⟩ (by omega)
        exact (of_decide_eq_true hge).trans (key_le_key hsorted hm hn hi)
      case isFalse hlt' =>
        refine ih ⟨by omega, hlen, fun i n hn hi => ?_, h.above⟩ (by omega)
        exact (key_le_key hsorted hn hm (by omega)).trans_lt
          (not_le.mp fun hle' => hlt' (decide_eq_true hle'))

/-- The keys of the nodes, as points of the ring. -/
def points (nodes : List RingNode) : List Nat := nodes.map fun n => n.key.val

theorem lt_of_mem_points {m : Nat} (h : m ∈ points nodes) : m < 2 ^ 32 := by
  obtain ⟨n, -, rfl⟩ := List.mem_map.mp h
  exact n.key.isLt

theorem mem_points {n : RingNode} (h : n ∈ nodes) : n.key.val ∈ points nodes :=
  List.mem_map_of_mem h

/-- `successorIndex` designates the first node from the target on. -/
theorem isFirst_successorIndex (hsorted : nodes.Pairwise fun a b => a.key ≤ b.key)
    (hne : 0 < nodes.length) (target : RingKey) :
    ∃ f, nodes[successorIndex nodes target]? = some f ∧
      Clockwise.IsFirst (2 ^ 32) (points nodes) target f.key := by
  have hstart : Bisected nodes target 0 nodes.length := by
    refine ⟨Nat.zero_le _, le_rfl, fun i n _ hi => absurd hi (Nat.not_lt_zero i),
      fun i n hn hi => ?_⟩
    rw [List.getElem?_eq_none hi] at hn
    cases hn
  have hend := bisected_bisect hsorted hstart (le_of_eq (Nat.sub_zero _))
  rw [successorIndex]
  generalize bisect nodes target nodes.length 0 nodes.length = r at hend
  rcases Nat.lt_or_eq_of_le hend.le_length with hr | hr
  · rw [Nat.mod_eq_of_lt hr]
    refine ⟨nodes[r], List.getElem?_eq_getElem hr, mem_points (List.getElem_mem hr), ?_⟩
    intro m hm
    obtain ⟨n, hn, rfl⟩ := List.mem_map.mp hm
    obtain ⟨j, hj⟩ := List.mem_iff_getElem?.mp hn
    have hfirst : target ≤ nodes[r].key :=
      hend.above r _ (List.getElem?_eq_getElem hr) le_rfl
    have hlt := n.key.isLt
    unfold Clockwise.dist
    rw [if_pos (Fin.le_def.mp hfirst)]
    rcases Nat.lt_or_ge j r with hjr | hjr
    · have hbelow := Fin.lt_def.mp (hend.below j n hj hjr)
      rw [if_neg (by omega)]
      have hfirst' := (nodes[r]).key.isLt
      omega
    · have hmono := Fin.le_def.mp
        (key_le_key hsorted (List.getElem?_eq_getElem hr) hj hjr)
      have htarget := Fin.le_def.mp hfirst
      rw [if_pos (by omega)]
      omega
  · rw [hr, Nat.mod_self]
    refine ⟨nodes[0], List.getElem?_eq_getElem hne, mem_points (List.getElem_mem hne), ?_⟩
    intro m hm
    obtain ⟨n, hn, rfl⟩ := List.mem_map.mp hm
    obtain ⟨j, hj⟩ := List.mem_iff_getElem?.mp hn
    have hjlen : j < nodes.length := (List.getElem?_eq_some_iff.mp hj).1
    have hbelow := Fin.lt_def.mp (hend.below j n hj (by omega))
    have hzero := Fin.lt_def.mp
      (hend.below 0 _ (List.getElem?_eq_getElem hne) (by omega))
    have hmono := Fin.le_def.mp
      (key_le_key hsorted (List.getElem?_eq_getElem hne) hj (Nat.zero_le j))
    unfold Clockwise.dist
    rw [if_neg (by omega), if_neg (by omega)]
    omega

theorem successorIndex_congr {nodes' : List RingNode}
    (h : nodes.map RingNode.key = nodes'.map RingNode.key) (target : RingKey) :
    successorIndex nodes target = successorIndex nodes' target := by
  have hlen : nodes.length = nodes'.length := by
    rw [← List.length_map (f := RingNode.key), h, List.length_map]
  have hany : ∀ i : Nat, ((nodes[i]?).any fun n : RingNode => decide (n.key ≥ target)) =
      (nodes'[i]?).any fun n : RingNode => decide (n.key ≥ target) := by
    intro i
    have hi := congrArg (fun keys : List RingKey => (keys[i]?).any fun k => decide (k ≥ target)) h
    simp only [List.getElem?_map, Option.any_map] at hi
    exact hi
  have hbisect : ∀ fuel lo hi,
      bisect nodes target fuel lo hi = bisect nodes' target fuel lo hi := by
    intro fuel
    induction fuel with
    | zero => intro lo hi; rfl
    | succ fuel ih =>
      intro lo hi
      rw [bisect, bisect]
      dsimp only
      rw [hany, ih, ih]
  rw [successorIndex, successorIndex, hbisect, hlen]

end Search

/-! ## The built ring -/

section Built

variable {d : ChordDht}

/-- What `build` establishes. -/
structure Ring (nodes : List RingNode) : Prop where
  sorted : nodes.Pairwise fun a b => a.key ≤ b.key
  indexed : ∀ (i : Nat) (n : RingNode), nodes[i]? = some n → n.index = i
  fingers : ∀ n ∈ nodes, n.fingers = (List.range ringBits).map fun i =>
    successorIndex nodes (fingerStart n.key i)

theorem map_key_sortedNodes (d : ChordDht) : d.sortedNodes.map RingNode.key =
    (d.nodes.mergeSort fun a b => decide (a.key ≤ b.key)).map RingNode.key := by
  refine List.ext_getElem? fun i => ?_
  rw [ChordDht.sortedNodes, List.getElem?_map, List.getElem?_map, List.getElem?_mapIdx,
    Option.map_map]
  rfl

theorem getElem?_build (d : ChordDht) (i : Nat) : d.build.nodes[i]? =
    ((d.nodes.mergeSort fun a b => decide (a.key ≤ b.key))[i]?).map fun n : RingNode =>
      { n with
        index := i
        fingers := (List.range ringBits).map fun j =>
          successorIndex d.sortedNodes (fingerStart n.key j) } := by
  rw [ChordDht.build]
  dsimp only
  rw [List.getElem?_map, ChordDht.sortedNodes, List.getElem?_mapIdx, Option.map_map]
  rfl

theorem map_key_build (d : ChordDht) :
    d.build.nodes.map RingNode.key = d.sortedNodes.map RingNode.key := by
  rw [ChordDht.build]
  dsimp only
  rw [List.map_map]
  rfl

theorem map_key_build_perm (d : ChordDht) :
    (d.build.nodes.map RingNode.key).Perm (d.nodes.map RingNode.key) := by
  rw [map_key_build, map_key_sortedNodes]
  exact (List.mergeSort_perm d.nodes _).map RingNode.key

theorem ring_build (d : ChordDht) : Ring d.build.nodes where
  sorted := by
    have hsorted : (d.nodes.mergeSort fun a b => decide (a.key ≤ b.key)).Pairwise
        fun a b => a.key ≤ b.key :=
      List.Pairwise.imp of_decide_eq_true (List.pairwise_mergeSort
        (fun a b c hab hbc => decide_eq_true
          ((of_decide_eq_true hab).trans (of_decide_eq_true hbc)))
        (fun a b => by simpa using le_total a.key b.key) d.nodes)
    have hkeys := List.pairwise_map.mpr hsorted
    rw [← map_key_sortedNodes, ← map_key_build] at hkeys
    exact List.pairwise_map.mp hkeys
  indexed i n hn := by
    rw [getElem?_build] at hn
    obtain ⟨m, -, rfl⟩ := Option.map_eq_some_iff.mp hn
    rfl
  fingers n hn := by
    obtain ⟨i, hi⟩ := List.mem_iff_getElem?.mp hn
    rw [getElem?_build] at hi
    obtain ⟨m, -, rfl⟩ := Option.map_eq_some_iff.mp hi
    refine List.map_congr_left fun j _ => ?_
    exact successorIndex_congr (map_key_build d).symm _

/-- No node is between a node and its successor. -/
theorem successorOf_next {nodes : List RingNode} (hring : Ring nodes)
    (hkeys : (nodes.map RingNode.key).Nodup) {n : RingNode} (hn : n ∈ nodes) :
    ∃ s, nodes[(n.index + 1) % nodes.length]? = some s ∧ s ∈ nodes ∧
      ∀ m ∈ points nodes, Clockwise.way (2 ^ 32) n.key s.key ≤ Clockwise.way (2 ^ 32) n.key m := by
  obtain ⟨i, hi⟩ := List.mem_iff_getElem?.mp hn
  obtain ⟨hilt, -⟩ := List.getElem?_eq_some_iff.mp hi
  have hlt : ∀ (j : Nat) (a b : RingNode), nodes[j]? = some a → ∀ k, nodes[k]? = some b → j < k →
      a.key < b.key := by
    intro j a b ha k hb hjk
    refine lt_of_le_of_ne (key_le_key hring.sorted ha hb hjk.le) fun heq => ?_
    have ha' : (nodes.map RingNode.key)[j]? = some a.key := by rw [List.getElem?_map, ha]; rfl
    have hb' : (nodes.map RingNode.key)[k]? = some b.key := by rw [List.getElem?_map, hb]; rfl
    obtain ⟨hj, -⟩ := List.getElem?_eq_some_iff.mp ha'
    have hsame := (List.getElem?_inj hj hkeys).mp (ha'.trans (heq ▸ hb'.symm))
    omega
  rw [hring.indexed i n hi]
  have hpos : 0 < nodes.length := by omega
  obtain ⟨s, hs⟩ : ∃ s, nodes[(i + 1) % nodes.length]? = some s :=
    ⟨_, List.getElem?_eq_getElem (Nat.mod_lt _ hpos)⟩
  refine ⟨s, hs, List.mem_of_getElem? hs, fun m hm => ?_⟩
  obtain ⟨b, hb, rfl⟩ := List.mem_map.mp hm
  obtain ⟨j, hj⟩ := List.mem_iff_getElem?.mp hb
  obtain ⟨hjlt, -⟩ := List.getElem?_eq_some_iff.mp hj
  have hnlt := n.key.isLt
  have hslt := s.key.isLt
  have hblt := b.key.isLt
  have hbn : j ≤ i → b.key.val ≤ n.key.val := fun hji =>
    Fin.le_def.mp (key_le_key hring.sorted hj hi hji)
  rcases Nat.lt_or_ge (i + 1) nodes.length with hlast | hlast
  · rw [Nat.mod_eq_of_lt hlast] at hs
    have hns := Fin.lt_def.mp (hlt i n s hi (i + 1) hs (Nat.lt_succ_self i))
    have hsb : i < j → s.key.val ≤ b.key.val := fun hij =>
      Fin.le_def.mp (key_le_key hring.sorted hs hj hij)
    unfold Clockwise.way
    rw [if_pos hns]
    split
    case isTrue hnb =>
      have hij : i < j := by
        by_contra hge
        have := hbn (not_lt.mp hge)
        omega
      have := hsb hij
      omega
    case isFalse => omega
  · have hend : i + 1 = nodes.length := by omega
    rw [hend, Nat.mod_self] at hs
    have hsn := Fin.le_def.mp (key_le_key hring.sorted hs hi (Nat.zero_le i))
    have hsb := Fin.le_def.mp (key_le_key hring.sorted hs hj (Nat.zero_le j))
    have hbn' := hbn (by omega)
    unfold Clockwise.way
    rw [if_neg (by omega), if_neg (by omega)]
    omega

end Built

/-! ## One hop -/

section Hop

variable {d : ChordDht} {n c : RingNode} {target : RingKey}

theorem inOpenClosed_iff (x a b : RingKey) : inOpenClosed x a b = true ↔
    Clockwise.way (2 ^ 32) a x ≤ Clockwise.way (2 ^ 32) a b := by
  rw [Clockwise.way_le_way_iff a.isLt b.isLt x.isLt, inOpenClosed]
  split
  case isTrue heq => simp [heq]
  case isFalse hne =>
    have hne' : a.val ≠ b.val := fun h => hne (Fin.ext h)
    split
    case isTrue hlt =>
      have hlt' := Fin.lt_def.mp hlt
      rw [Bool.and_eq_true, decide_eq_true_iff, decide_eq_true_iff, gt_iff_lt, Fin.lt_def,
        Fin.le_def]
      omega
    case isFalse hge =>
      have hge' := Fin.le_def.mp (not_lt.mp hge)
      rw [Bool.or_eq_true, decide_eq_true_iff, decide_eq_true_iff, gt_iff_lt, Fin.lt_def,
        Fin.le_def]
      omega

theorem inOpenOpen_iff (x a b : RingKey) : inOpenOpen x a b = true ↔
    Clockwise.way (2 ^ 32) a x < Clockwise.way (2 ^ 32) a b := by
  rw [Clockwise.way_lt_way_iff a.isLt b.isLt x.isLt, inOpenOpen]
  split
  case isTrue heq =>
    rw [heq, decide_eq_true_iff, Ne, ← Fin.val_inj]
    omega
  case isFalse hne =>
    have hne' : a.val ≠ b.val := fun h => hne (Fin.ext h)
    split
    case isTrue hlt =>
      have hlt' := Fin.lt_def.mp hlt
      rw [Bool.and_eq_true, decide_eq_true_iff, decide_eq_true_iff, gt_iff_lt, Fin.lt_def,
        Fin.lt_def]
      omega
    case isFalse hge =>
      have hge' := Fin.le_def.mp (not_lt.mp hge)
      rw [Bool.or_eq_true, decide_eq_true_iff, decide_eq_true_iff, gt_iff_lt, Fin.lt_def,
        Fin.lt_def]
      omega

theorem finger_ahead (hring : Ring d.nodes) (hn : n ∈ d.nodes) {i : Nat} (hi : i < ringBits) :
    ∃ j f, n.fingers[i]? = some j ∧ d.nodes[j]? = some f ∧ f ∈ d.nodes ∧
      2 ^ i ≤ Clockwise.way (2 ^ 32) n.key f.key ∧
      ∀ m ∈ points d.nodes, 2 ^ i ≤ Clockwise.way (2 ^ 32) n.key m →
        Clockwise.way (2 ^ 32) n.key f.key ≤ Clockwise.way (2 ^ 32) n.key m := by
  have hpos : 0 < d.nodes.length := List.length_pos_of_mem hn
  obtain ⟨f, hf, hfirst⟩ := isFirst_successorIndex hring.sorted hpos (fingerStart n.key i)
  have hpow : 2 ^ i ≤ 2 ^ 32 := Nat.pow_le_pow_right (by omega) (Nat.le_of_lt hi)
  obtain ⟨hle, hmin⟩ := Clockwise.le_way_of_isFirst (fun m hm => lt_of_mem_points hm)
    (mem_points hn) (Nat.two_pow_pos i) hpow hfirst
  refine ⟨_, f, ?_, hf, List.mem_of_getElem? hf, hle, hmin⟩
  rw [hring.fingers n hn, List.getElem?_map, List.getElem?_range hi]
  rfl

/-- All the nodes between a node and the target are less than `2 ^ j` ahead. -/
def Within (nodes : List RingNode) (n : RingNode) (target : RingKey) (j : Nat) : Prop :=
  ∀ m ∈ points nodes, Clockwise.way (2 ^ 32) n.key m < Clockwise.way (2 ^ 32) n.key target →
    Clockwise.way (2 ^ 32) n.key m < 2 ^ j

/-- The finger chosen is before the target, and twice as far as it is behind the target. -/
theorem closestBelow_spec (hring : Ring d.nodes) (hn : n ∈ d.nodes)
    {m : Nat} (hm : m ∈ points d.nodes)
    (hbefore : Clockwise.way (2 ^ 32) n.key m < Clockwise.way (2 ^ 32) n.key target) {i : Nat}
    (hi : i ≤ ringBits) (hwithin : Within d.nodes n target i) :
    ∃ c j, d.closestBelow n target i = some c ∧ c ∈ d.nodes ∧
      Clockwise.way (2 ^ 32) n.key c.key < Clockwise.way (2 ^ 32) n.key target ∧
      2 ^ j ≤ Clockwise.way (2 ^ 32) n.key c.key ∧ Within d.nodes n target (j + 1) := by
  induction i with
  | zero =>
    have hone := hwithin m hm hbefore
    have hpos := Clockwise.way_pos (b := m) n.key.isLt
    omega
  | succ i ih =>
    obtain ⟨k, f, hfinger, hnode, hf, hle, hmin⟩ := finger_ahead hring hn hi
    rw [ChordDht.closestBelow, hfinger, Option.bind_some, hnode, Option.bind_some]
    split
    case isTrue hopen => exact ⟨f, i, rfl, hf, (inOpenOpen_iff _ _ _).mp hopen, hle, hwithin⟩
    case isFalse hopen =>
      -- the finger is beyond the target, and so is whatever is farther than it
      have hbeyond : ¬ Clockwise.way (2 ^ 32) n.key f.key <
          Clockwise.way (2 ^ 32) n.key target := fun h => hopen ((inOpenOpen_iff _ _ _).mpr h)
      refine ih (Nat.le_of_succ_le hi) fun x hx hxt => ?_
      by_contra hfar
      have := hmin x hx (not_lt.mp hfar)
      omega

/-- How many nodes there are between a node and the target. -/
def remaining (nodes : List RingNode) (n : RingNode) (target : RingKey) : Nat :=
  (points nodes).countP fun m =>
    decide (Clockwise.way (2 ^ 32) n.key m < Clockwise.way (2 ^ 32) n.key target)

theorem countP_lt {p q : Nat → Bool} {l : List Nat} (h : ∀ x ∈ l, p x = true → q x = true)
    {y : Nat} (hy : y ∈ l) (hq : q y = true) (hp : p y = false) : l.countP p < l.countP q := by
  induction l with
  | nil => cases hy
  | cons x rest ih =>
    have hrest : ∀ z ∈ rest, p z = true → q z = true := fun z hz =>
      h z (List.mem_cons_of_mem x hz)
    have hle := List.countP_mono_left hrest
    rw [List.countP_cons, List.countP_cons]
    rcases List.mem_cons.mp hy with rfl | hy
    · rw [if_neg (by rw [hp]; exact Bool.false_ne_true), if_pos hq]
      omega
    · have hlt := ih hrest hy
      have hhead := h x List.mem_cons_self
      split
      case isTrue hpx =>
        rw [if_pos (hhead hpx)]
        omega
      case isFalse => omega

theorem remaining_lt {nodes : List RingNode} (hc : c ∈ nodes)
    (hbefore : Clockwise.way (2 ^ 32) n.key c.key < Clockwise.way (2 ^ 32) n.key target) :
    remaining nodes c target < remaining nodes n target := by
  have hsplit := Clockwise.way_add n.key.isLt c.key.isLt target.isLt hbefore
  have htarget := Clockwise.way_le (a := n.key.val) target.isLt
  refine countP_lt (fun m hm hmc => ?_) (mem_points hc) (decide_eq_true hbefore) ?_
  · have hmc' := of_decide_eq_true hmc
    have hway := Clockwise.way_of_add_le n.key.isLt c.key.isLt (c := m) (by omega)
    exact decide_eq_true (by omega)
  · rw [decide_eq_false_iff_not, Clockwise.way_self, not_lt]
    exact Clockwise.way_le target.isLt

theorem within_of_within {nodes : List RingNode} {j : Nat}
    (hbefore : Clockwise.way (2 ^ 32) n.key c.key < Clockwise.way (2 ^ 32) n.key target)
    (hle : 2 ^ j ≤ Clockwise.way (2 ^ 32) n.key c.key) (hwithin : Within nodes n target (j + 1)) :
    Within nodes c target j := by
  intro m hm hmc
  have hsplit := Clockwise.way_add n.key.isLt c.key.isLt target.isLt hbefore
  have htarget := Clockwise.way_le (a := n.key.val) target.isLt
  have hway := Clockwise.way_of_add_le n.key.isLt c.key.isLt (c := m) (by omega)
  have hm' := hwithin m hm (by omega)
  have hpow := Nat.pow_succ 2 j
  omega

theorem findFrom_of_stop {s : RingNode} (hs : d.successorOf n = some s)
    (hstop : inOpenClosed target n.key s.key = true) (left hops : Nat) :
    d.findFrom target left n hops = some ⟨s, hops, false⟩ := by
  cases left with
  | zero => rw [ChordDht.findFrom, hs, Option.bind_some, if_pos hstop]
  | succ left => rw [ChordDht.findFrom, hs, Option.bind_some, if_pos hstop]

theorem findFrom_of_hop {s : RingNode} (hs : d.successorOf n = some s)
    (hgo : ¬ inOpenClosed target n.key s.key = true)
    (hc : d.closestPreceding n target = some c) (hne : c.index ≠ n.index) (left hops : Nat) :
    d.findFrom target (left + 1) n hops = d.findFrom target left c (hops + 1) := by
  rw [ChordDht.findFrom, hs, Option.bind_some, if_neg hgo, hc, Option.bind_some, if_neg hne]

/-- At a node the loop stops with the first node from the target on, or it hops to a finger
before the target. -/
theorem hop_cases (hring : Ring d.nodes) (hkeys : (d.nodes.map RingNode.key).Nodup)
    (hn : n ∈ d.nodes) (target : RingKey) :
    ∃ s, d.successorOf n = some s ∧ s ∈ d.nodes ∧
      ((inOpenClosed target n.key s.key = true ∧
          Clockwise.IsFirst (2 ^ 32) (points d.nodes) target s.key) ∨
        (¬ inOpenClosed target n.key s.key = true ∧
          ∃ c i, d.closestPreceding n target = some c ∧ c ∈ d.nodes ∧ c.index ≠ n.index ∧
            Clockwise.way (2 ^ 32) n.key c.key < Clockwise.way (2 ^ 32) n.key target ∧
            2 ^ i ≤ Clockwise.way (2 ^ 32) n.key c.key ∧ Within d.nodes n target (i + 1))) := by
  obtain ⟨s, hs, hsmem, hnext⟩ := successorOf_next hring hkeys hn
  refine ⟨s, hs, hsmem, ?_⟩
  by_cases hstop : inOpenClosed target n.key s.key = true
  · refine .inl ⟨hstop, Clockwise.isFirst_of_way_le (fun m hm => lt_of_mem_points hm) n.key.isLt
      target.isLt (mem_points hsmem) hnext ((inOpenClosed_iff _ _ _).mp hstop)⟩
  · -- the successor is before the target
    have hbefore : Clockwise.way (2 ^ 32) n.key s.key < Clockwise.way (2 ^ 32) n.key target :=
      not_le.mp fun h => hstop ((inOpenClosed_iff _ _ _).mpr h)
    have hall : Within d.nodes n target ringBits := fun m hm hmt =>
      hmt.trans_le (Clockwise.way_le target.isLt)
    obtain ⟨c, i, hclosest, hc, hct, hle, hhalf⟩ :=
      closestBelow_spec hring hn (mem_points hsmem) hbefore le_rfl hall
    refine .inr ⟨hstop, c, i, hclosest, hc, fun heq => ?_, hct, hle, hhalf⟩
    have hcn : c = n := by
      obtain ⟨a, ha⟩ := List.mem_iff_getElem?.mp hc
      obtain ⟨b, hb⟩ := List.mem_iff_getElem?.mp hn
      rw [hring.indexed a c ha, hring.indexed b n hb] at heq
      rw [heq, hb] at ha
      exact (Option.some_inj.mp ha).symm
    have hround := Clockwise.way_le (a := n.key.val) target.isLt
    rw [hcn, Clockwise.way_self] at hct
    omega

theorem findFrom_spec (hring : Ring d.nodes) (hkeys : (d.nodes.map RingNode.key).Nodup)
    {left : Nat} (hn : n ∈ d.nodes) (hleft : remaining d.nodes n target ≤ left) {j : Nat}
    (hwithin : Within d.nodes n target j) (hops : Nat) :
    ∃ f k, d.findFrom target left n hops = some ⟨f, hops + k, false⟩ ∧ k ≤ j ∧ f ∈ d.nodes ∧
      Clockwise.IsFirst (2 ^ 32) (points d.nodes) target f.key := by
  induction left generalizing n j hops with
  | zero =>
    obtain ⟨s, hs, hsmem, ⟨hstop, hfirst⟩ | ⟨-, c, i, -, hc, -, hct, -, -⟩⟩ :=
      hop_cases hring hkeys hn target
    · exact ⟨s, 0, findFrom_of_stop hs hstop 0 hops, Nat.zero_le j, hsmem, hfirst⟩
    · have hless := remaining_lt hc hct
      omega
  | succ left ih =>
    obtain ⟨s, hs, hsmem, ⟨hstop, hfirst⟩ | ⟨hgo, c, i, hclosest, hc, hne, hct, hle, hhalf⟩⟩ :=
      hop_cases hring hkeys hn target
    · exact ⟨s, 0, findFrom_of_stop hs hstop _ hops, Nat.zero_le j, hsmem, hfirst⟩
    · have hless := remaining_lt hc hct
      have hij : i < j := (Nat.pow_lt_pow_iff_right (by omega)).mp
        (hle.trans_lt (hwithin c.key (mem_points hc) hct))
      obtain ⟨f, k, hfind, hk, hf, hfirst⟩ := ih hc (by omega)
        (within_of_within hct hle hhalf) (hops + 1)
      refine ⟨f, k + 1, ?_, by omega, hf, hfirst⟩
      rw [findFrom_of_hop hs hgo hclosest hne, hfind]
      exact congrArg (fun h => some (Found.mk f h false)) (by omega)

end Hop

/-! ## Every look-up -/

/-- The rings that calls can leave: a built one, whatever is announced on it afterwards. -/
inductive BuiltDht (P : Primitives F) : ChordDht → Prop
  | build (d : ChordDht) : BuiltDht P d.build
  | provide {d d' : ChordDht} {cid : String} {providerId : Hex} :
      BuiltDht P d → d.provide P cid providerId = some d' → BuiltDht P d'

section Routing

variable {P : Primitives F} {d d' : ChordDht}

theorem nodes_provide {cid : String} {providerId : Hex}
    (h : d.provide P cid providerId = some d') : d'.nodes = d.nodes ∧ d'.k = d.k := by
  unfold ChordDht.provide at h
  split at h
  case isTrue =>
    obtain ⟨nodeIndex, -, rfl⟩ := Option.map_eq_some_iff.mp h
    exact ⟨rfl, rfl⟩
  case isFalse => cases h

theorem BuiltDht.ring (h : BuiltDht P d) : Ring d.nodes := by
  induction h with
  | build d => exact ring_build d
  | provide _ hprovide ih => rwa [(nodes_provide hprovide).1]

/-- From any node, a look-up for any key stops by itself at the node `successorIndex` designates,
the first of the responsible ones, in at most 32 hops. -/
theorem findSuccessor_first_responsible (h : BuiltDht P d)
    (hkeys : (d.nodes.map RingNode.key).Nodup) {start : RingNode} (hstart : start ∈ d.nodes)
    (target : RingKey) :
    ∃ found, d.findSuccessor start target = some found ∧ found.guardFired = false ∧
      d.nodes[successorIndex d.nodes target]? = some found.node ∧
      (0 < d.k → (d.responsibleNodes target).head? = some found.node) ∧
      found.hops ≤ 32 := by
  have hring := h.ring
  have hpos : 0 < d.nodes.length := List.length_pos_of_mem hstart
  have hremaining : remaining d.nodes start target ≤ 2 * d.nodes.length + 2 := by
    have hcount := List.countP_le_length (p := fun m => decide (Clockwise.way (2 ^ 32) start.key m <
      Clockwise.way (2 ^ 32) start.key target)) (l := points d.nodes)
    rw [points, List.length_map] at hcount
    rw [remaining, points]
    omega
  have hall : Within d.nodes start target 32 := fun m hm hmt =>
    hmt.trans_le (Clockwise.way_le target.isLt)
  obtain ⟨f, k, hfind, hk, hf, hfirst⟩ := findFrom_spec hring hkeys hstart hremaining hall 0
  obtain ⟨g, hg, hgfirst⟩ := isFirst_successorIndex hring.sorted hpos target
  have hfg : f = g := by
    have hkey := hfirst.unique (fun m hm => lt_of_mem_points hm) target.isLt hgfirst
    exact List.inj_on_of_nodup_map hkeys hf (List.mem_of_getElem? hg) (Fin.ext hkey)
  refine ⟨⟨f, 0 + k, false⟩, hfind, rfl, hfg ▸ hg, fun hk => ?_, by dsimp only; omega⟩
  rw [ChordDht.responsibleNodes]
  obtain ⟨r, hr⟩ : ∃ r, min d.k d.nodes.length = r + 1 := ⟨min d.k d.nodes.length - 1, by omega⟩
  have hlt : successorIndex d.nodes target < d.nodes.length :=
    (List.getElem?_eq_some_iff.mp hg).1
  rw [hr, List.range_succ_eq_map, List.filterMap_cons_some, List.head?_cons]
  rw [Nat.add_zero, Nat.mod_eq_of_lt hlt, hg, hfg]

/-- Three nodes, added out of order. -/
def ringOfThree : ChordDht :=
  ⟨2, [⟨"aa", 4000000000, 0, []⟩, ⟨"bb", 7, 0, []⟩, ⟨"cc", 2500000000, 0, []⟩], false, .empty,
    .empty⟩

theorem findSuccessor_on_ringOfThree :
    (ringOfThree.build.nodes.map RingNode.key).Nodup ∧
      ∃ start, start ∈ ringOfThree.build.nodes ∧
        ∃ found, ringOfThree.build.findSuccessor start 4000000000 = some found ∧
          found.guardFired = false ∧
          ringOfThree.build.nodes[successorIndex ringOfThree.build.nodes 4000000000]? =
            some found.node ∧
          (0 < ringOfThree.build.k →
            (ringOfThree.build.responsibleNodes 4000000000).head? = some found.node) ∧
          found.hops ≤ 32 := by
  have hkeys : (ringOfThree.build.nodes.map RingNode.key).Nodup :=
    (map_key_build_perm ringOfThree).nodup_iff.mpr (by decide +kernel)
  have hpos : 0 < ringOfThree.build.nodes.length := by
    have hlength := (map_key_build_perm ringOfThree).length_eq
    rw [List.length_map, List.length_map] at hlength
    rw [hlength]
    decide +kernel
  have hbuilt : BuiltDht Sample.primitives ringOfThree.build := .build ringOfThree
  exact ⟨hkeys, _, List.getElem_mem hpos,
    findSuccessor_first_responsible hbuilt hkeys (List.getElem_mem hpos) 4000000000⟩

end Routing

/-! ## What is announced is found -/

section Records

variable {P : Primitives F} {d : ChordDht} {announced : List (String × Hex)}

/-- What the announcements so far have left: the providers of each CID, and the CID in the index of
the nodes that are responsible for it, and of no others. -/
structure Recorded (P : Primitives F) (announced : List (String × Hex)) (d : ChordDht) : Prop where
  built : d.built = true
  providers : ∀ cid p, ((d.providers.get? cid).getD .empty).has p = true ↔ (cid, p) ∈ announced
  indexed : ∀ n ∈ d.nodes, ∃ cids, d.nodeIndex.get? n.id = some cids ∧
    ∀ cid, cids.has cid = true ↔
      (∃ m ∈ d.responsibleNodes (ringKey P cid), m.id = n.id) ∧ cid ∈ announced.map Prod.fst

theorem foldlM_indexAt (cid : String) (responsible : List RingNode)
    (index : JsMap Hex (JsSet String))
    (hindex : ∀ n ∈ responsible, ∃ cids, index.get? n.id = some cids) :
    ∃ index', responsible.foldlM (ChordDht.indexAt cid) index = some index' ∧
      ∀ id cids, index.get? id = some cids → ∃ cids', index'.get? id = some cids' ∧
        ∀ c, cids'.has c = true ↔
          cids.has c = true ∨ c = cid ∧ ∃ m ∈ responsible, m.id = id := by
  induction responsible generalizing index with
  | nil => exact ⟨index, rfl, fun id cids hcids => ⟨cids, hcids, by simp⟩⟩
  | cons n rest ih =>
    obtain ⟨held, hheld⟩ := hindex n List.mem_cons_self
    have hset : ∀ id cids, index.get? id = some cids →
        ∃ cids', (index.set n.id (JsSet.add held cid)).get? id = some cids' ∧
          ∀ c, cids'.has c = true ↔ cids.has c = true ∨ c = cid ∧ n.id = id := by
      intro id cids hcids
      rw [JsMap.get?_set]
      by_cases hid : n.id = id
      · rw [if_pos hid]
        rw [← hid, hheld] at hcids
        refine ⟨_, rfl, fun c => ?_⟩
        rw [← Option.some.inj hcids, JsSet.has_add, Bool.or_eq_true, decide_eq_true_eq, or_comm,
          and_iff_left hid, @eq_comm _ c cid]
      · rw [if_neg hid]
        exact ⟨cids, hcids, fun c => by simp [hid]⟩
    obtain ⟨index', hindex', hrest⟩ := ih (index.set n.id (JsSet.add held cid)) fun m hm => by
      obtain ⟨cids, hcids⟩ := hindex m (List.mem_cons_of_mem _ hm)
      obtain ⟨cids', hcids', -⟩ := hset m.id cids hcids
      exact ⟨cids', hcids'⟩
    refine ⟨index', ?_, fun id cids hcids => ?_⟩
    · rw [List.foldlM_cons, ChordDht.indexAt, hheld]
      exact hindex'
    · obtain ⟨cids', hcids', hhas⟩ := hset id cids hcids
      obtain ⟨cids'', hcids'', hhas'⟩ := hrest id cids' hcids'
      refine ⟨cids'', hcids'', fun c => ?_⟩
      rw [hhas', hhas, List.exists_mem_cons_iff, or_assoc, ← and_or_left]

theorem mem_nodes_of_responsible {key : RingKey} {n : RingNode}
    (h : n ∈ d.responsibleNodes key) : n ∈ d.nodes := by
  obtain ⟨i, -, hi⟩ := List.mem_filterMap.mp h
  exact List.mem_of_getElem? hi

theorem Recorded.provide (h : Recorded P announced d) (cid : String) (p : Hex) :
    ∃ d', d.provide P cid p = some d' ∧ Recorded P (announced ++ [(cid, p)]) d' ∧
      d'.nodes = d.nodes ∧ d'.k = d.k := by
  obtain ⟨index, hindex, hhas⟩ := foldlM_indexAt cid (d.responsibleNodes (ringKey P cid))
    d.nodeIndex fun n hn => by
      obtain ⟨cids, hcids, -⟩ := h.indexed n (mem_nodes_of_responsible hn)
      exact ⟨cids, hcids⟩
  refine ⟨{ d with
      providers := d.providers.set cid (JsSet.add ((d.providers.get? cid).getD .empty) p)
      nodeIndex := index }, by rw [ChordDht.provide, if_pos h.built, hindex]; rfl,
    ⟨h.built, fun c q => ?_, fun n hn => ?_⟩, rfl, rfl⟩
  · rw [JsMap.get?_set, List.mem_append, ← h.providers, List.mem_singleton, Prod.mk.injEq]
    by_cases hc : cid = c
    · subst hc
      rw [if_pos rfl, Option.getD_some, JsSet.has_add, Bool.or_eq_true, decide_eq_true_eq, or_comm,
        and_iff_right rfl, @eq_comm _ q p]
    · rw [if_neg hc]
      simp [Ne.symm hc]
  · obtain ⟨cids, hcids, hiff⟩ := h.indexed n hn
    obtain ⟨cids', hcids', hiff'⟩ := hhas n.id cids hcids
    refine ⟨cids', hcids', fun c => ?_⟩
    show cids'.has c = true ↔ (∃ m ∈ d.responsibleNodes (ringKey P c), m.id = n.id) ∧ _
    rw [hiff', hiff, List.map_append, List.mem_append, List.map_singleton, List.mem_singleton]
    constructor
    · rintro (⟨hm, hc⟩ | ⟨rfl, hm⟩)
      · exact ⟨hm, .inl hc⟩
      · exact ⟨hm, .inr rfl⟩
    · rintro ⟨hm, hc | rfl⟩
      · exact .inl ⟨hm, hc⟩
      · exact .inr ⟨rfl, hm⟩

theorem recorded_run {d : ChordDht} (h : Recorded P announced d) (more : List (String × Hex)) :
    ∃ d', more.foldlM (fun d a => d.provide P a.1 a.2) d = some d' ∧
      Recorded P (announced ++ more) d' ∧ d'.nodes = d.nodes ∧ d'.k = d.k := by
  induction more generalizing d announced with
  | nil => exact ⟨d, rfl, by rwa [List.append_nil], rfl, rfl⟩
  | cons a rest ih =>
    obtain ⟨d₁, hd₁, h₁, hnodes₁, hk₁⟩ := h.provide a.1 a.2
    obtain ⟨d', hd', h', hnodes, hk⟩ := ih h₁
    refine ⟨d', ?_, by rwa [List.append_assoc] at h', hnodes.trans hnodes₁, hk.trans hk₁⟩
    rw [List.foldlM_cons, hd₁]
    exact hd'

theorem foldlM_addNode (P : Primitives F) (ids : List Hex) (d : ChordDht)
    (hbuilt : d.built = false) : ids.foldlM (ChordDht.addNode P) d =
      some { d with nodes := d.nodes ++ ids.map fun id => ⟨id, ringKey P id, 0, []⟩ } := by
  induction ids generalizing d with
  | nil => simp
  | cons id rest ih =>
    have hadd : d.addNode P id = some { d with nodes := d.nodes ++ [⟨id, ringKey P id, 0, []⟩] } :=
      if_neg (Bool.not_eq_true _ ▸ hbuilt)
    rw [List.foldlM_cons, hadd, Option.bind_eq_bind, Option.bind_some,
      ih { d with nodes := d.nodes ++ [⟨id, ringKey P id, 0, []⟩] } hbuilt]
    simp

theorem get?_foldl_empty (nodes : List RingNode) (index : JsMap Hex (JsSet String)) (id : Hex) :
    (nodes.foldl (fun index n => index.set n.id .empty) index).get? id =
      if ∃ n ∈ nodes, n.id = id then some .empty else index.get? id := by
  induction nodes generalizing index with
  | nil => simp
  | cons n rest ih =>
    rw [List.foldl_cons, ih, JsMap.get?_set]
    by_cases hn : n.id = id <;> simp [hn]

theorem recorded_build (hproviders : d.providers = .empty) : Recorded P [] d.build where
  built := rfl
  providers cid p := by
    show ((d.providers.get? cid).getD .empty).has p = true ↔ _
    rw [hproviders]
    simp
  indexed n hn := by
    obtain ⟨m, hm, rfl⟩ := List.mem_map.mp hn
    refine ⟨.empty, ?_, fun cid => by simp⟩
    exact (get?_foldl_empty ..).trans (if_pos ⟨m, hm, rfl⟩)

/-! The records of a CID lie on as many nodes as there are places for them. -/

theorem length_responsibleNodes (hnodes : d.nodes ≠ []) (key : RingKey) :
    (d.responsibleNodes key).length = min d.k d.nodes.length := by
  have hpos := List.length_pos_of_ne_nil hnodes
  rw [ChordDht.responsibleNodes, List.length_filterMap_eq_countP, List.countP_eq_length.mpr,
    List.length_range]
  intro i _
  rw [List.getElem?_eq_getElem (Nat.mod_lt _ hpos), Option.isSome_some]

theorem nodup_responsibleNodes (hnodup : d.nodes.Nodup) (key : RingKey) :
    (d.responsibleNodes key).Nodup := by
  refine List.pairwise_filterMap.mpr (List.Pairwise.imp_of_mem ?_ List.nodup_range)
  rintro i j hi hj hij n hn m hm rfl
  have hi' : i < d.nodes.length := (List.mem_range.mp hi).trans_le (Nat.min_le_right ..)
  have hj' : j < d.nodes.length := (List.mem_range.mp hj).trans_le (Nat.min_le_right ..)
  have hmod := (List.getElem?_inj (Nat.mod_lt _ (Nat.zero_lt_of_lt hi')) hnodup).mp
    (hn.trans hm.symm)
  exact hij (Nat.ModEq.eq_of_lt_of_lt (Nat.ModEq.add_left_cancel' _ hmod) hi' hj')

theorem sum_length_filter_comm {α β : Type} (r : α → β → Bool) (l : List α) (m : List β) :
    (l.map fun a => (m.filter (r a)).length).sum =
      (m.map fun b => (l.filter fun a => r a b).length).sum := by
  induction l with
  | nil => simp
  | cons a rest ih =>
    rw [List.map_cons, List.sum_cons, ih, ← List.countP_eq_length_filter]
    clear ih
    induction m with
    | nil => rfl
    | cons b m ih =>
      rw [List.map_cons, List.map_cons, List.sum_cons, List.sum_cons, ← ih, List.countP_cons,
        List.filter_cons]
      cases r a b <;> simp <;> omega

/-- What a ring of `ids` is to answer once `announced` has been announced on it. -/
structure Discovers (P : Primitives F) (k : Nat) (ids : List Hex)
    (announced : List (String × Hex)) (d : ChordDht) : Prop where
  found : ids ≠ [] → ∀ cid fromId, ∃ r, d.findProviders P cid fromId = some r ∧ r.hops ≤ 32 ∧
    r.providers.Nodup ∧ ∀ p, p ∈ r.providers ↔ (cid, p) ∈ announced
  records : (d.nodes.map fun n => d.indexSize n.id).sum =
    min k ids.length * (announced.map Prod.fst).dedup.length

theorem indexSize_eq (h : Recorded P announced d) {n : RingNode} (hn : n ∈ d.nodes) :
    d.indexSize n.id = ((announced.map Prod.fst).dedup.filter fun cid =>
      (d.responsibleNodes (ringKey P cid)).any fun m => m.id == n.id).length := by
  obtain ⟨cids, hcids, hiff⟩ := h.indexed n hn
  rw [ChordDht.indexSize, hcids, Option.map_some, Option.getD_some]
  refine List.Perm.length_eq ((List.perm_ext_iff_of_nodup cids.nodup
    ((List.nodup_dedup _).filter _)).mpr fun cid => ?_)
  show cid ∈ cids.keys ↔ _
  rw [← JsSet.has_iff_mem_keys, hiff, List.mem_filter, List.mem_dedup, List.any_eq_true, and_comm]
  simp only [beq_iff_eq]

/-- However many files there are, their records are spread: every CID is recorded `k` times. -/
theorem records_eq (h : Recorded P announced d) (hnodes : d.nodes ≠ [])
    (hids : (d.nodes.map RingNode.id).Nodup) : (d.nodes.map fun n => d.indexSize n.id).sum =
      min d.k d.nodes.length * (announced.map Prod.fst).dedup.length := by
  rw [List.map_congr_left fun n hn => indexSize_eq h hn, sum_length_filter_comm]
  have hcount : ∀ cid ∈ (announced.map Prod.fst).dedup, (d.nodes.filter fun n =>
      (d.responsibleNodes (ringKey P cid)).any fun m => m.id == n.id).length =
        min d.k d.nodes.length := by
    intro cid _
    rw [← length_responsibleNodes hnodes (ringKey P cid)]
    have hnodup := hids.of_map
    refine List.Perm.length_eq ((List.perm_ext_iff_of_nodup (hnodup.filter _)
      (nodup_responsibleNodes hnodup _)).mpr fun n => ?_)
    simp only [List.mem_filter, List.any_eq_true, beq_iff_eq]
    constructor
    · rintro ⟨hn, m, hm, hid⟩
      exact List.inj_on_of_nodup_map hids (mem_nodes_of_responsible hm) hn hid ▸ hm
    · intro hn
      exact ⟨mem_nodes_of_responsible hn, n, hn, rfl⟩
  rw [List.map_congr_left hcount, List.map_const', List.sum_replicate_nat, Nat.mul_comm]

theorem findSuccessor_spec (hring : Ring d.nodes) (hkeys : (d.nodes.map RingNode.key).Nodup)
    {start : RingNode} (hstart : start ∈ d.nodes) (target : RingKey) :
    ∃ f, d.findSuccessor start target = some f ∧ f.hops ≤ 32 := by
  have hcount := List.countP_le_length (p := fun m => decide (Clockwise.way (2 ^ 32) start.key m <
    Clockwise.way (2 ^ 32) start.key target)) (l := points d.nodes)
  have hremaining : remaining d.nodes start target ≤ 2 * d.nodes.length + 2 := by
    rw [points, List.length_map] at hcount
    rw [remaining, points]
    omega
  obtain ⟨f, k, hfind, hk, -⟩ := findFrom_spec hring hkeys hstart hremaining
    (fun m _ hmt => hmt.trans_le (Clockwise.way_le target.isLt)) 0
  exact ⟨_, hfind, by dsimp only; omega⟩

theorem findProviders_spec (h : Recorded P announced d) (hring : Ring d.nodes)
    (hkeys : (d.nodes.map RingNode.key).Nodup) (hnodes : d.nodes ≠ []) (cid : String)
    (fromId : Hex) : ∃ r, d.findProviders P cid fromId = some r ∧ r.hops ≤ 32 ∧
      r.providers.Nodup ∧ ∀ p, p ∈ r.providers ↔ (cid, p) ∈ announced := by
  obtain ⟨start, hstart, hmem⟩ : ∃ start,
      (d.nodes.find? fun n => n.id == fromId).or d.nodes[0]? = some start ∧ start ∈ d.nodes := by
    cases hfind : d.nodes.find? fun n => n.id == fromId with
    | some n => exact ⟨n, rfl, List.mem_of_find?_eq_some hfind⟩
    | none =>
      obtain ⟨n, rest, hcons⟩ := List.exists_cons_of_ne_nil hnodes
      exact ⟨n, by rw [hcons]; rfl, by rw [hcons]; exact List.mem_cons_self⟩
  obtain ⟨found, hfound, hhops⟩ := findSuccessor_spec hring hkeys hmem (ringKey P cid)
  refine ⟨⟨((d.providers.get? cid).getD .empty).keys, found.hops⟩, ?_, hhops, JsMap.nodup _,
    fun p => ?_⟩
  · rw [ChordDht.findProviders, if_pos h.built, hstart, Option.bind_some, hfound]
    rfl
  · rw [← JsSet.has_iff_mem_keys, h.providers]

/-- No announcement fails.  A look-up from any node gives the announced providers of the CID and
no others, after at most 32 hops; and the nodes together keep `k` records for each CID. -/
theorem announcements_found (P : Primitives F) (k : Nat) (ids : List Hex)
    (hkeys : (ids.map (ringKey P)).Nodup) (announced : List (String × Hex)) :
    ∃ d d', ids.foldlM (ChordDht.addNode P) (ChordDht.new k) = some d ∧
      announced.foldlM (fun d a => d.provide P a.1 a.2) d.build = some d' ∧
      Discovers P k ids announced d' := by
  have hadded := foldlM_addNode P ids (ChordDht.new k) rfl
  generalize hd : ({ ChordDht.new k with
    nodes := (ChordDht.new k).nodes ++ ids.map fun id => ⟨id, ringKey P id, 0, []⟩ } : ChordDht) =
      d at hadded
  have hadd : d.nodes = ids.map fun id => ⟨id, ringKey P id, 0, []⟩ := by
    rw [← hd]
    rfl
  have hempty : d.providers = .empty := by
    rw [← hd]
    rfl
  obtain ⟨d', hrun, hrecorded, hnodes, hk⟩ :=
    recorded_run (P := P) (recorded_build hempty) announced
  rw [List.nil_append] at hrecorded
  have hperm := map_key_build_perm d
  rw [← hnodes, hadd, List.map_map] at hperm
  have hnodup : (d'.nodes.map RingNode.key).Nodup := hperm.nodup_iff.mpr hkeys
  have hlength : d'.nodes.length = ids.length := by
    simpa only [List.length_map] using hperm.length_eq
  have hne : ids ≠ [] → d'.nodes ≠ [] := by
    rintro hids hnil
    rw [hnil] at hlength
    exact hids (List.length_eq_zero_iff.mp hlength.symm)
  -- the key of a node is that of its id, so that the ids are apart as well
  have hid : ∀ n ∈ d'.nodes, n.key = ringKey P n.id := by
    intro n hn
    rw [hnodes] at hn
    obtain ⟨i, hi⟩ := List.mem_iff_getElem?.mp hn
    rw [getElem?_build] at hi
    obtain ⟨m, hm, rfl⟩ := Option.map_eq_some_iff.mp hi
    have hmem := List.mem_mergeSort.mp (List.mem_of_getElem? hm)
    rw [hadd] at hmem
    obtain ⟨id, -, rfl⟩ := List.mem_map.mp hmem
    rfl
  have hids : (d'.nodes.map RingNode.id).Nodup := by
    rw [List.map_congr_left hid, ← Function.comp_def, ← List.map_map] at hnodup
    exact hnodup.of_map
  refine ⟨d, d', hadded, hrun, fun h => ?_, ?_⟩
  · exact findProviders_spec hrecorded (hnodes ▸ ring_build d) hnodup (hne h)
  · by_cases h : ids = []
    · rw [List.length_eq_zero_iff.mp (hlength.trans (by rw [h]; rfl)), h]
      simp
    · rw [records_eq hrecorded (hne h) hids, hlength, hk, ← hd]
      rfl

theorem announcements_found_of_three : ∃ d d',
    ["aa", "bb", "cc"].foldlM (ChordDht.addNode Sample.primitives) (ChordDht.new 2) = some d ∧
      [("photo", "aa"), ("photo", "dd"), ("song", "aa")].foldlM
        (fun d a => d.provide Sample.primitives a.1 a.2) d.build = some d' ∧
      Discovers Sample.primitives 2 ["aa", "bb", "cc"]
        [("photo", "aa"), ("photo", "dd"), ("song", "aa")] d' :=
  announcements_found Sample.primitives 2 _ (by decide +kernel) _

end Records

end NeuronWeb
