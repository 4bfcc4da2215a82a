/-
  Content/SettlementSchedule: when an account settles, and the roots its block carries
  (`engine/content/storage-settlement.ts`).
-/
import NeuronWeb.Core.Block
import Mathlib.Data.List.Sort

set_option autoImplicit false

namespace NeuronWeb

variable {F : Type}

/-! ## The schedule -/

/-- Settlement period: thirty epochs. -/
def settlementPeriodMs (epochMs : Int) : Int := epochMs * 30

/-- `s.charCodeAt(i)` for every `i`: the UTF-16 code units. -/
def charCodes (s : String) : List UInt32 :=
  s.toList.flatMap fun c =>
    if c.toNat < 0x10000 then [c.val]
    else
      let v := c.toNat - 0x10000
      [UInt32.ofNat (0xd800 + v / 0x400), UInt32.ofNat (0xdc00 + v % 0x400)]

/-- Which slot inside the period this account settles in. -/
def settlementSlot (accountId : Hex) (slotsInPeriod : Nat) : Nat :=
  let h := (charCodes accountId).foldl (fun h code => (h ^^^ code) * 16777619) 2166136261
  let h := h ^^^ (h >>> 15)
  let h := h * 2246822507
  let h := h ^^^ (h >>> 13)
  h.toNat % max 1 slotsInPeriod

/-- Period index for a timestamp. -/
def periodIndexAt (now periodMs : Int) : Int := now.fdiv periodMs

/-- Minimum credited bytes before settling is worth a block. -/
def MIN_SETTLE_BYTES : Int := 64 * 1024 * 1024

structure SettlementDue where
  due : Bool
  periodIndex : Int
  reason : String

/-- Is this account due to settle right now? -/
def settlementDue [JsNumber F] (accountId : Hex) (now periodMs : Int) (lastSettledPeriod : F)
    (pendingBytes : F) : SettlementDue :=
  let periodIndex := periodIndexAt now periodMs
  if JsNumber.le (JsNumber.ofInt periodIndex) lastSettledPeriod then
    ⟨false, periodIndex, "period " ++ toString periodIndex ++ " already settled"⟩
  else if JsNumber.lt pendingBytes (JsNumber.ofInt MIN_SETTLE_BYTES) then
    ⟨false, periodIndex, "only " ++ JsNumber.toText pendingBytes ++ " byte(s) pending, below " ++
      toString MIN_SETTLE_BYTES⟩
  else
    let slots := max 1 (periodMs.fdiv 60000).toNat
    let slot := settlementSlot accountId slots
    let elapsedSlots := (now.tmod periodMs).fdiv 60000
    if elapsedSlots < slot then
      ⟨false, periodIndex, "slot " ++ toString slot ++ " not reached (at " ++
        toString elapsedSlots ++ ")"⟩
    else ⟨true, periodIndex, "due in slot " ++ toString slot⟩

/-! ## The two records -/

/-- Rows in the order of their keys. -/
def sortRows (rows : List (String × F)) : List (String × F) :=
  rows.insertionSort fun a b => a.1 ≤ b.1

/-- The rows of a record and their total, under the name the record has for them. -/
def recordRoot [JsNumber F] (P : Primitives F) (name : String) (rows : List (String × F)) : Hex :=
  let sorted := sortRows rows
  hashJson P (.obj [("v", .int 1), (name, .arr (sorted.map fun e => .arr [.str e.1, .num e.2])),
    ("totalBytes", .num (sorted.foldl (fun sum e => JsNumber.add sum e.2) (JsNumber.ofInt 0)))])

/-- The publish record: what this account has put on the network, by CID. -/
def publishRecordRoot [JsNumber F] (P : Primitives F) (files : List (String × F)) : Hex :=
  recordRoot P "files" files

/-- The service record: what this account has served, per counterparty. -/
def serviceRecordRoot [JsNumber F] (P : Primitives F) (settled : JsMap Hex F) : Hex :=
  recordRoot P "readers" settled.entries

end NeuronWeb
