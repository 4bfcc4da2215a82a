/-
  Node/ArchivingStore: an account store with a bounded hot window
  (`engine/node/archiving-store.ts`, `engine/node/archive.ts`).

  The newest `hotWindow` blocks of an account are in memory, the older ones are written to a
  content store and referred to by their address.

  `apply` accepts a block before it archives the ones that leave the window, and it takes such a
  block out of the window before it writes it: a failing write leaves `apply` with the block in
  neither place.
-/
import NeuronWeb.Content.ContentStore
import NeuronWeb.Core.BlockCodec

set_option autoImplicit false

namespace NeuronWeb

variable {F : Type}

/-! ## The archive -/

structure ArchiveRef where
  accountId : Hex
  index : Int
  hash : Hex
  cid : Cid
  deriving DecidableEq

/-- The reference to an archived block. -/
def ArchiveRef.of (P : Primitives F) (block : Block F) : ArchiveRef where
  accountId := block.accountId
  index := block.index
  hash := block.hash
  cid := cidOf P (encodeBlock P block)

/-- `archive(block)`: write the block under its address.  A write that is refused throws,
and so does one whose backend is out of order (`fault`). -/
def archiveBlock (P : Primitives F) (store : ContentStore) (block : Block F) (fault : Bool) :
    ContentStore × Except String ArchiveRef :=
  let bytes := encodeBlock P block
  let cid := cidOf P bytes
  if fault then (store, .error "backend failed")
  else
    match store.putBlock cid bytes with
    | (store', .refused reason) => (store', .error ("archive failed: " ++ reason))
    | (store', .ok _) => (store', .ok (ArchiveRef.of P block))

/-- `retrieve(ref)`: the block, checked again; the outer `none` is a decoder that throws. -/
def retrieve (P : Primitives F) (R : BlockReader F) (store : ContentStore) (ref : ArchiveRef) :
    Option (Option (Block F)) :=
  match store.backend.get? ref.cid with
  | none => some none
  | some bytes =>
    if cidOf P bytes ≠ ref.cid then some none
    else
      match decodeBlock R bytes with
      | none => none
      | some block =>
        if block.hash ≠ ref.hash then some none
        else if !verifyBlock P block then some none
        else some (some block)

/-! ## The store -/

namespace ArchivingStore

/-- What is kept for an account. -/
structure Held (F : Type) where
  acc : AccountAccumulator
  hot : List (Block F)
  archived : JsMap Int ArchiveRef
  length : Int

/-- An account without blocks. -/
def Held.empty : Held F := { acc := [], hot := [], archived := JsMap.empty, length := 0 }

end ArchivingStore

structure ArchivingStore (F : Type) where
  archive : ContentStore
  hotWindow : Nat
  verifySignatures : Bool
  accounts : JsMap Hex (ArchivingStore.Held F)

/-- `ArchiveApplyResult`, or the ways in which `apply` throws. -/
inductive ArchiveApplyResult where
  | ok
  | refused (reason : String)
  | threw (error : String)
  deriving DecidableEq

structure ProvenBlock (F : Type) where
  block : Block F
  index : Int
  proof : List Hex
  root : Hex
  treeSize : Int

namespace ArchivingStore

def new (archive : ContentStore) (hotWindow : Nat) (verifySignatures : Bool) :
    ArchivingStore F :=
  { archive, hotWindow, verifySignatures, accounts := JsMap.empty }

/-- The outcome of the checks of `apply`. -/
inductive Admission (F : Type) where
  /-- `apply` ends here. -/
  | ended (result : ArchiveApplyResult)
  /-- The block extends what is held for its account. -/
  | onto (held : Held F)

/-- The last check: the block commits to the history that it extends. -/
def checkRoot (P : Primitives F) (held : Held F) (block : Block F) : Admission F :=
  match held.acc.rootWithHex P block.hash with
  | none => .ended (.threw "hash is not hex")
  | some root =>
    if root ≠ block.accumulatorRoot then .ended (.refused "accumulator root mismatch")
    else .onto held

/-- The checks of `apply`.  The account of a genesis block is entered before the last one. -/
def place (P : Primitives F) (s : ArchivingStore F) (block : Block F) :
    ArchivingStore F × Admission F :=
  if computeContentHash P block.toBlockContent ≠ block.hash then
    (s, .ended (.refused "content hash mismatch"))
  else if s.verifySignatures && !verifyBlockSignature P block then
    (s, .ended (.refused "invalid signature"))
  else if block.index = 0 then
    if block.type ≠ .open ∨ block.previousHash ≠ GENESIS_PREV then
      (s, .ended (.refused "index 0 must be a genesis open block"))
    else
      match s.accounts.get? block.accountId with
      | some held =>
        if (held.hot.head?.any fun g => g.hash = block.hash) then (s, .ended .ok)
        else (s, .ended (.refused "conflicting open block"))
      | none =>
        ({ s with accounts := s.accounts.set block.accountId Held.empty },
          checkRoot P Held.empty block)
  else
    match s.accounts.get? block.accountId with
    | none => (s, .ended (.refused "missing prior chain (genesis not seen)"))
    | some held =>
      if block.index ≠ held.length then
        (s, .ended (.refused ("non-sequential index " ++ toString block.index)))
      else
        match held.hot.getLast? with
        | none => (s, .ended (.threw "no head"))
        | some head =>
          if block.previousHash ≠ head.hash then
            (s, .ended (.refused "previousHash does not match head"))
          else (s, checkRoot P held block)

/-- What the archival loop leaves behind, and the error that ended it. -/
structure Drained (F : Type) where
  hot : List (Block F)
  archived : JsMap Int ArchiveRef
  archive : ContentStore
  error : Option String

/-- The loop `while (held.hot.length > hotWindow)`: a block is shifted out of the window
first and archived then. -/
def drain (P : Primitives F) (hotWindow : Nat) (fault : Bool) :
    List (Block F) → JsMap Int ArchiveRef → ContentStore → Drained F
  | [], archived, archive => { hot := [], archived, archive, error := none }
  | old :: rest, archived, archive =>
    if rest.length + 1 ≤ hotWindow then
      { hot := old :: rest, archived, archive, error := none }
    else
      match archiveBlock P archive old fault with
      | (archive', .error e) => { hot := rest, archived, archive := archive', error := some e }
      | (archive', .ok ref) =>
        drain P hotWindow fault rest (archived.set old.index ref) archive'

/-- Append an accepted block to what is held and archive what leaves the window. -/
def append (P : Primitives F) (s : ArchivingStore F) (held : Held F) (block : Block F)
    (fault : Bool) : ArchivingStore F × ArchiveApplyResult :=
  match held.acc.append block.hash with
  | none => (s, .threw "hash is not hex")
  | some acc =>
    let d := drain P s.hotWindow fault (held.hot ++ [block]) held.archived s.archive
    let held' := { acc, hot := d.hot, archived := d.archived, length := held.length + 1 }
    ({ s with archive := d.archive, accounts := s.accounts.set block.accountId held' },
      match d.error with
      | none => .ok
      | some e => .threw e)

/-- `apply(block)`; the backend is out of order when `fault` is set. -/
def apply (P : Primitives F) (s : ArchivingStore F) (block : Block F) (fault : Bool) :
    ArchivingStore F × ArchiveApplyResult :=
  match place P s block with
  | (s', .ended result) => (s', result)
  | (s', .onto held) => append P s' held block fault

/-- `length(accountId)`. -/
def length (s : ArchivingStore F) (accountId : Hex) : Int :=
  (s.accounts.get? accountId).elim 0 (·.length)

/-- The body of block `index`: from the window, else from the archive. -/
def bodyOf (P : Primitives F) (R : BlockReader F) (s : ArchivingStore F) (h : Held F)
    (oldest : Block F) (index : Int) : Option (Option (Block F)) :=
  if oldest.index ≤ index then some (h.hot.find? fun b => b.index = index)
  else
    match h.archived.get? index with
    | none => some none
    | some ref => retrieve P R s.archive ref

/-- `getProven(accountId, index)`: a block with its proof; the outer `none` is a throw. -/
def getProven (P : Primitives F) (R : BlockReader F) (s : ArchivingStore F) (accountId : Hex)
    (index : Int) : Option (Option (ProvenBlock F)) :=
  match s.accounts.get? accountId with
  | none => some none
  | some h =>
    if index < 0 ∨ h.length ≤ index then some none
    else
      match h.hot.head? with
      | none => none
      | some oldest =>
        match bodyOf P R s h oldest index with
        | none => none
        | some none => some none
        | some (some block) =>
          (h.acc.proofHex P index).map fun proof =>
            some { block, index, proof, root := h.acc.rootHex P, treeSize := h.length }

end ArchivingStore

end NeuronWeb
