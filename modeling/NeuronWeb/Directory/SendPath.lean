/-
  Directory/SendPath: the two ways from a name to an account (`resolveAccount` in
  `network/node.ts`, `resolveToPublicKey` in `ledger/engine-ledger.ts`).

  A payment first resolves its recipient with the relays, and `createSend` then looks the same
  name up in the ledger. The two are meant to name one account: the record that the relays give
  is registered in between. But an account that is known already is not registered again,
  whatever name it is known under, and a record is registered under the spelling of its own
  username, not under the one that was asked for.
-/
import NeuronWeb.Directory.Sample
import NeuronWeb.Foundation.Run

set_option autoImplicit false

namespace NeuronWeb

variable {F : Type}

namespace DirectoryClient

/-! ## The ledger under the two paths -/

/-- `updateAccountFields(pub, fields)`, of which the model keeps `fields.username`. -/
def updateAccountFields (c : DirectoryClient F) (pub : String) (username : Option String) :
    DirectoryClient F :=
  match c.accountsByPub.get? pub, username with
  | some acc, some nextUsername =>
    { c with
      accountsByPub := c.accountsByPub.set pub { acc with username := nextUsername }
      usernameToPub :=
        if nextUsername = "" ∨ nextUsername = acc.username then c.usernameToPub
        else (c.usernameToPub.delete acc.username).set nextUsername pub }
  | _, _ => c

/-- `purgeAccount(pub)`. -/
def purgeAccount (c : DirectoryClient F) (pub : String) : DirectoryClient F :=
  { c with
    usernameToPub :=
      match c.accountsByPub.get? pub with
      | some acc => c.usernameToPub.delete acc.username
      | none => c.usernameToPub
    accountsByPub := c.accountsByPub.delete pub }

/-! ## When the ledger learns the name -/

/-- The identifier stands for the account already, or the account is new and the identifier is
its key, or its username, spelled alike, and the key of no other account. -/
def Learns (c : DirectoryClient F) (identifier : String) (account : ResolvedAccount F) : Prop :=
  c.resolveToPublicKey identifier = some account.pub ∨
    c.accountsByPub.has account.pub = false ∧
      (identifier = account.pub ∨
        identifier = account.username ∧ identifier ≠ "" ∧
          c.accountsByPub.has identifier = false)

variable {c : DirectoryClient F} {identifier : String} {account : ResolvedAccount F}

@[simp] theorem resolveToPublicKey_cacheAccount (pub : String) (record : Json F) :
    (c.cacheAccount pub record).resolveToPublicKey identifier = c.resolveToPublicKey identifier :=
  rfl

theorem registerAccount_of_known (h : c.accountsByPub.has account.pub = true) :
    c.registerAccount account = c :=
  if_pos h

theorem resolveToPublicKey_registerAccount (h : c.accountsByPub.has account.pub = false) :
    (c.registerAccount account).resolveToPublicKey identifier =
      if identifier = account.pub then some account.pub
      else if identifier = account.username ∧ identifier ≠ "" ∧
          c.accountsByPub.has identifier = false then some account.pub
      else c.resolveToPublicKey identifier := by
  have hnew : c.registerAccount account =
      { c with
        accountsByPub := c.accountsByPub.set account.pub account
        usernameToPub :=
          if account.username = "" then c.usernameToPub
          else c.usernameToPub.set account.username account.pub } := by
    rw [registerAccount, if_neg (by simp [h])]
  rw [hnew]
  by_cases hpub : identifier = account.pub
  · subst hpub
    simp [resolveToPublicKey, JsMap.has_set]
  · have hne : ¬ account.pub = identifier := fun heq => hpub heq.symm
    cases hhas : c.accountsByPub.has identifier with
    | true => simp [resolveToPublicKey, JsMap.has_set, hpub, hhas]
    | false =>
      by_cases hempty : account.username = ""
      · have hname : ¬ (identifier = account.username ∧ identifier ≠ "") :=
          fun hboth => hboth.2 (hboth.1.trans hempty)
        simp only [resolveToPublicKey, JsMap.has_set, hne, hhas, hempty, if_true, decide_false,
          Bool.or_self, Bool.false_eq_true, if_false, hpub]
        rw [if_neg (fun hall => hname ⟨hall.1.trans hempty.symm, hall.2.1⟩)]
      · by_cases hname : identifier = account.username
        · subst hname
          simp [resolveToPublicKey, JsMap.has_set, hpub, hne, hhas, hempty]
        · have hname' : ¬ account.username = identifier := fun heq => hname heq.symm
          simp [resolveToPublicKey, JsMap.has_set, JsMap.get?_set, hpub, hne, hhas, hempty,
            hname, hname']

theorem resolveToPublicKey_registerAccount_iff :
    (c.registerAccount account).resolveToPublicKey identifier = some account.pub ↔
      c.Learns identifier account := by
  cases hknown : c.accountsByPub.has account.pub with
  | true => simp [registerAccount_of_known hknown, Learns, hknown]
  | false =>
    rw [resolveToPublicKey_registerAccount hknown]
    simp only [Learns, hknown, true_and]
    split
    · rename_i hpub
      simp [hpub]
    · rename_i hpub
      split
      · rename_i hname
        simp only [true_iff]
        exact .inr (.inr hname)
      · rename_i hname
        simp [hpub, hname]

end DirectoryClient

/-! ## The calls -/

variable [JsNumber F]

namespace DirectoryClient

/-- What `resolveAccount` does with the record that the relays gave. -/
def learnRecord (T : JsText F) (c : DirectoryClient F) (rec : Json F) : DirectoryClient F :=
  match accountOf T rec with
  | some account => (c.registerAccount account).cacheAccount account.pub rec
  | none => c

/-- The rest of `resolveAccount(identifier)`, after the relays have answered. -/
def afterAnswers (P : Primitives F) (T : JsText F) (c : DirectoryClient F) (identifier : String)
    (answers : List (Option (Json F))) : DirectoryClient F :=
  match resolveAccountFromRelays P T (queryFor T identifier) answers with
  | some (some rec) => c.learnRecord T rec
  | _ => c

end DirectoryClient

/-- A call of `resolveAccount` that waits for the relays. -/
structure ResolveCall where
  identifier : String
  /-- What the ledger knew when it was called. -/
  known : Option String

/-- What the call returns when it ends with these answers; `none` where that is `null`, and
where it throws. -/
def ResolveCall.returns (P : Primitives F) (T : JsText F) (call : ResolveCall)
    (answers : List (Option (Json F))) : Option String :=
  match resolveAccountFromRelays P T (DirectoryClient.queryFor T call.identifier) answers with
  | some (some rec) => (accountOf T rec).map ResolvedAccount.pub
  | some none => call.known
  | none => none

structure ResolvingNode (F : Type) where
  client : DirectoryClient F
  /-- The calls that were made; `none` has ended. -/
  calls : List (Option ResolveCall)

inductive DirectoryEvent (F : Type) where
  /-- A placeholder, an account of the start, of a snapshot or of gossip. -/
  | registerAccount (account : ResolvedAccount F)
  | updateAccountFields (pub : String) (username : Option String)
  | purgeAccount (pub : String)
  /-- An account becomes one of our own. -/
  | addLocalKeys (pub : String)
  | resolveAccount (identifier : String)
  /-- The relays have answered the `i`-th call. -/
  | answered (i : Nat) (answers : List (Option (Json F)))

namespace ResolvingNode

variable (P : Primitives F) (T : JsText F)

def step (s : ResolvingNode F) : DirectoryEvent F → ResolvingNode F
  | .registerAccount account => { s with client := s.client.registerAccount account }
  | .updateAccountFields pub username =>
    { s with client := s.client.updateAccountFields pub username }
  | .purgeAccount pub => { s with client := s.client.purgeAccount pub }
  | .addLocalKeys pub =>
    { s with client := { s.client with localKeys := s.client.localKeys.add pub } }
  | .resolveAccount identifier =>
    if s.client.asks identifier then
      let call : ResolveCall := ⟨identifier, s.client.resolveToPublicKey identifier⟩
      { s with calls := s.calls ++ [some call] }
    else s
  | .answered i answers =>
    match s.calls[i]? with
    | some (some call) =>
      { client := s.client.afterAnswers P T call.identifier answers
        calls := s.calls.set i none }
    | _ => s

/-- The identifier that was resolved, and the account that `resolveAccount` returns for it,
when a call ends with this event. -/
def returned (s : ResolvingNode F) : DirectoryEvent F → Option (String × String)
  | .resolveAccount identifier =>
    if s.client.asks identifier then none
    else (s.client.resolveToPublicKey identifier).map fun pub => (identifier, pub)
  | .answered i answers =>
    match s.calls[i]? with
    | some (some call) => (call.returns P T answers).map fun pub => (call.identifier, pub)
    | _ => none
  | _ => none

/-- Once `resolveAccount` has returned an account for a name, a send looks the name up and
finds the same account. -/
def PathsAgree (s : ResolvingNode F) (event : DirectoryEvent F) (s' : ResolvingNode F) : Prop :=
  ∀ identifier pub, s.returned P T event = some (identifier, pub) →
    s'.client.resolveToPublicKey identifier = some pub

end ResolvingNode

/-! ## One call, and a run -/

/-- The account for which the relays gave a verified record is learned under the identifier;
where they gave none, the ledger still knows of it what it knew when the call was made. -/
def DirectoryClient.Settles (P : Primitives F) (T : JsText F) (c : DirectoryClient F)
    (call : ResolveCall) (answers : List (Option (Json F))) : Prop :=
  match resolveAccountFromRelays P T (queryFor T call.identifier) answers with
  | some (some rec) =>
    ∀ account, accountOf T rec = some account → c.Learns call.identifier account
  | some none => call.known = none ∨ c.resolveToPublicKey call.identifier = call.known
  | none => True

namespace ResolvingNode

variable {P : Primitives F} {T : JsText F} {s : ResolvingNode F}

/-- The answers settle the name that the call was made for. -/
def CallSettles (P : Primitives F) (T : JsText F) (s : ResolvingNode F) :
    DirectoryEvent F → Prop
  | .answered i answers =>
    ∀ call, s.calls[i]? = some (some call) → s.client.Settles P T call answers
  | _ => True

/-- The account that a call returns is found under its name exactly when the answers settle
the name. -/
theorem returns_iff_settles (c : DirectoryClient F) (call : ResolveCall)
    (answers : List (Option (Json F))) :
    (∀ pub, call.returns P T answers = some pub →
        (c.afterAnswers P T call.identifier answers).resolveToPublicKey call.identifier =
          some pub) ↔
      c.Settles P T call answers := by
  unfold ResolveCall.returns DirectoryClient.afterAnswers DirectoryClient.Settles
  cases resolveAccountFromRelays P T (DirectoryClient.queryFor T call.identifier) answers with
  | none => simp
  | some best =>
    cases best with
    | none =>
      -- no record: the call returns what it had read when it was made
      cases hknown : call.known with
      | none => simp
      | some known => simp
    | some rec =>
      cases haccount : accountOf T rec with
      | none => simp [haccount]
      | some account =>
        simp only [haccount, DirectoryClient.learnRecord, Option.map_some,
          DirectoryClient.resolveToPublicKey_cacheAccount, Option.some_inj]
        constructor
        · rintro hagree _ rfl
          exact DirectoryClient.resolveToPublicKey_registerAccount_iff.mp (hagree _ rfl)
        · rintro hlearns _ rfl
          exact DirectoryClient.resolveToPublicKey_registerAccount_iff.mpr (hlearns _ rfl)

theorem pathsAgree_resolveAccount (identifier : String) :
    PathsAgree P T s (.resolveAccount identifier) (step P T s (.resolveAccount identifier)) := by
  intro asked pub hreturned
  simp only [returned] at hreturned
  cases hasks : s.client.asks identifier with
  | true => simp [hasks] at hreturned
  | false =>
    simp only [hasks, Bool.false_eq_true, if_false, Option.map_eq_some_iff,
      Prod.mk.injEq] at hreturned
    obtain ⟨known, hknown, rfl, rfl⟩ := hreturned
    simpa [step, hasks] using hknown

theorem pathsAgree_answered_iff (i : Nat) (answers : List (Option (Json F))) :
    PathsAgree P T s (.answered i answers) (step P T s (.answered i answers)) ↔
      CallSettles P T s (.answered i answers) := by
  unfold PathsAgree CallSettles
  cases hcall : s.calls[i]? with
  | none => simp [returned, hcall]
  | some slot =>
    cases slot with
    | none => simp [returned, hcall]
    | some call =>
      have hiff := returns_iff_settles (P := P) (T := T) s.client call answers
      simp only [returned, step, hcall, Option.map_eq_some_iff, Prod.mk.injEq,
        Option.some_inj]
      constructor
      · rintro hagree _ rfl
        exact hiff.mp fun pub hpub => hagree _ pub ⟨pub, hpub, rfl, rfl⟩
      · rintro hsettles _ _ ⟨pub, hpub, rfl, rfl⟩
        exact hiff.mpr (hsettles call rfl) pub hpub

theorem pathsAgree_iff_callSettles (event : DirectoryEvent F) :
    PathsAgree P T s event (step P T s event) ↔ CallSettles P T s event := by
  cases event with
  | resolveAccount identifier => exact iff_of_true (pathsAgree_resolveAccount identifier) trivial
  | answered i answers => exact pathsAgree_answered_iff i answers
  | registerAccount account => simp [PathsAgree, returned, CallSettles]
  | updateAccountFields pub username => simp [PathsAgree, returned, CallSettles]
  | purgeAccount pub => simp [PathsAgree, returned, CallSettles]
  | addLocalKeys pub => simp [PathsAgree, returned, CallSettles]

/-- From any node state, every call of a run ends with an account that the ledger then finds
under the same name exactly when the answers settle the name each time. -/
theorem paths_agree_iff (P : Primitives F) (T : JsText F) (s : ResolvingNode F)
    (events : List (DirectoryEvent F)) :
    Run.EveryStep (step P T) (PathsAgree P T) s events ↔
      Run.StepsMeet (step P T) (CallSettles P T) s events :=
  Run.everyStep_iff_stepsMeet (I := fun _ => True) (fun _ _ _ => trivial)
    (fun _ event _ => pathsAgree_iff_callSettles event) trivial

end ResolvingNode

/-! ## A name that stands for another account -/

namespace ResolvingNode

open Sample

/-- A node that has seen nothing. -/
def fresh : ResolvingNode Rat where
  client := ⟨.testnet, .empty, .empty, .empty, .empty⟩
  calls := []

/-- An account as it is first met, before any record of it. -/
def met (username pub : String) : ResolvedAccount Rat :=
  ⟨username, pub, 0, "", none, none, none, none, none⟩

/-- The first bob was met long ago; the account that holds the name now only by an open block,
under its key.  Then the user pays bob. -/
def payBob : List (DirectoryEvent Rat) :=
  [.registerAccount (met "bob" "aa"), .registerAccount (met "bb" "bb"), .resolveAccount "bob",
    .answered 0 [some (signedRecord "bb" "bob" 2 1 "")]]

/-- The relays name the new account, and the send pays the old one. -/
theorem placeholder_hides_name :
    ¬ Run.EveryStep (step primitives jsText) (PathsAgree primitives jsText) fresh payBob ∧
      (let asked := Run.final (step primitives jsText) fresh (payBob.take 3)
       asked.returned primitives jsText payBob[3] = some ("bob", "bb") ∧
       (Run.final (step primitives jsText) fresh payBob).client.resolveToPublicKey "bob" =
         some "aa") := by
  have hreturned : (Run.final (step primitives jsText) fresh (payBob.take 3)).returned
      primitives jsText payBob[3] = some ("bob", "bb") := by decide +kernel
  have hlookup : (Run.final (step primitives jsText) fresh payBob).client.resolveToPublicKey
      "bob" = some "aa" := by decide +kernel
  refine ⟨fun hagree => ?_, hreturned, hlookup⟩
  have hsplit : Run.EveryStep (step primitives jsText) (PathsAgree primitives jsText) fresh
      (payBob.take 3 ++ [payBob[3]]) := hagree
  have hsame := (hsplit.last "bob" "bb" hreturned).symm.trans hlookup
  exact absurd hsame (by decide)

/-- Asked for in capitals, a new account is returned, and then not found. -/
example :
    let events : List (DirectoryEvent Rat) :=
      [.resolveAccount "Bob", .answered 0 [some (signedRecord "bb" "bob" 2 1 "")]]
    (Run.final (step primitives jsText) fresh events).client.resolveToPublicKey "Bob" = none := by
  decide +kernel

end ResolvingNode

end NeuronWeb
