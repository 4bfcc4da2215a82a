/-
  Storage/ReadCredit: who is credited for a read (`retrieve` and `creditServingPeer` in
  `network/storage-manager.ts`, `retrieve` in `network/smoke-store.ts`).

  A read that finds nothing here races some peers. Each peer that answers is noted as the server
  and its bytes are written; the first one whose write is done wins. When the race is over the
  noted server goes into `lastServedBy`, a field that all reads share, and the credit is given
  to whoever the field names when the caller gets to it.
-/
import NeuronWeb.Storage.Custody

set_option autoImplicit false

namespace NeuronWeb

variable {F : Type}

/-! ## The reader's books -/

/-- `Math.round(bytes * readCredit(nth, DEFAULT_TAPER))`: full value for the first read, half of
it for each later one.  Powers of one half are exact. -/
def creditedBytes (bytes nth : Nat) : Nat := (2 * bytes + 2 ^ (nth - 1)) / (2 * 2 ^ (nth - 1))

/-- What a `ReaderReceiptBook` keeps of a provider. -/
structure ReadTally where
  counter : Nat
  creditedBytes : Nat
  reads : Nat
  lastSeen : Int

/-- `ReaderReceiptBook`: the tally of each provider. -/
abbrev ReaderReceiptBook := JsMap Hex ReadTally

/-- `record(…)`, of a provider that is not the reader and bytes that are not none. -/
def ReaderReceiptBook.record [JsNumber F] (book : ReaderReceiptBook) (reader provider : Hex)
    (creditedBytes latencyMs : Nat) (now : Int) : ReaderReceiptBook × ReadReceiptWire F :=
  let prev := (book.get? provider).getD ⟨0, 0, 0, now⟩
  let next : ReadTally :=
    ⟨prev.counter + 1, prev.creditedBytes + creditedBytes, prev.reads + 1, now⟩
  (book.set provider next,
    { reader, provider
      counter := JsNumber.ofInt next.counter
      bytesTotal := JsNumber.ofInt next.creditedBytes
      readsTotal := JsNumber.ofInt next.reads
      lastLatencyMs := JsNumber.ofInt latencyMs
      ts := JsNumber.ofInt now })

/-! ## Reads -/

/-- How far a call of `retrieve` is. -/
inductive ReadStage where
  /-- The block is here, and is being read. -/
  | reading (data : Bytes)
  /-- The race is on. -/
  | asking
  /-- The write of this peer's bytes was the first to be done, and the race is over. -/
  | served (peer : String) (data : Bytes)
  /-- The store has returned the bytes of a peer, or of this node's own. -/
  | returned (source : Option String) (data : Bytes)
  | failed
  /-- The caller has been through `creditServingPeer`. -/
  | credited
  deriving DecidableEq

structure ReadCall where
  cid : Cid
  stage : ReadStage
  /-- The peers that have not answered. -/
  waiting : List String
  /-- The answers that are being written. -/
  writing : List (String × Bytes)
  /-- The local variable of `retrieve`. -/
  servedBy : Option String
  deriving DecidableEq

/-- A read receipt that has been signed, for which read, and what that read credited. -/
structure ReadCreditEvent (F : Type) where
  call : Nat
  creditedBytes : Nat
  envelope : SignedReceipt F

structure ReadDesk (F : Type) extends StorageManager F where
  liveness : CustodyLiveness
  lastServedBy : Option String
  readsPerCid : JsMap Cid Nat
  readerBooks : JsMap Hex ReaderReceiptBook
  reads : List ReadCall
  /-- The receipts signed so far. -/
  receipts : List (ReadCreditEvent F)

namespace ReadDesk

/-- A manager that is not reading anything. -/
def idle (m : StorageManager F) (liveness : CustodyLiveness) (lastServedBy : Option String)
    (readsPerCid : JsMap Cid Nat) (readerBooks : JsMap Hex ReaderReceiptBook) : ReadDesk F :=
  { m with liveness, lastServedBy, readsPerCid, readerBooks, reads := [], receipts := [] }

variable (s : ReadDesk F)

/-- `retrieve(cid)` up to the bytes of the own store, or to the race. -/
def retrieve (cid : Cid) (smokeAddrs : List String) : ReadDesk F :=
  match s.store.getBlock cid with
  | some data =>
    { s with
      lastServedBy := none
      reads := s.reads ++ [⟨cid, .reading data, [], [], none⟩] }
  | none =>
    let peers := s.store.retrievePeers smokeAddrs
    let stage : ReadStage := if peers.isEmpty then .failed else .asking
    { s with reads := s.reads ++ [⟨cid, stage, peers, [], none⟩] }

/-- The own store has read the block. -/
def loaded (n : Nat) (r : ReadCall) : ReadDesk F :=
  match r.stage with
  | .reading data => { s with reads := s.reads.set n { r with stage := .returned none data } }
  | _ => s

/-- A peer has answered, with these bytes. -/
def respond (n : Nat) (r : ReadCall) (peer : String) (data : Bytes) : ReadDesk F :=
  if r.waiting.contains peer then
    { s with
      store := s.store.touchPeerFallback peer
      reads := s.reads.set n { r with
        waiting := r.waiting.erase peer
        writing := r.writing ++ [(peer, data)]
        servedBy := some peer } }
  else s

/-- The fetch from a peer fails, or the write of its bytes. -/
def refuse (n : Nat) (r : ReadCall) (peer : String) : ReadDesk F :=
  { s with
    reads := s.reads.set n { r with
      waiting := r.waiting.erase peer
      writing := r.writing.filter fun w => w.1 ≠ peer } }

/-- The bytes of a peer have been written. -/
def written (n : Nat) (r : ReadCall) (peer : String) : ReadDesk F :=
  match r.writing.find? fun w => w.1 = peer with
  | none => s
  | some (_, data) =>
    { s with
      store := s.store.route r.cid data
      reads := s.reads.set n { r with
        writing := r.writing.filter fun w => w.1 ≠ peer
        stage := if r.stage = .asking then .served peer data else r.stage } }

/-- Nobody could serve, or not in time. -/
def giveUp (n : Nat) (r : ReadCall) : ReadDesk F :=
  match r.stage with
  | .asking => { s with reads := s.reads.set n { r with stage := .failed } }
  | _ => s

/-- The await of the race is over. -/
def resume (n : Nat) (r : ReadCall) : ReadDesk F :=
  match r.stage with
  | .served peer data =>
    { s with
      lastServedBy := r.servedBy
      reads := s.reads.set n { r with stage := .returned (some peer) data } }
  | _ => s

/-- `providerBySmokeAddr(addr)`. -/
def providerBySmokeAddr (addr : String) : Option Hex :=
  (s.ledger.providerLedger.providers.values.find? fun p => p.smokeAddr = some addr).map
    StorageProviderState.pub

variable [JsNumber F] (E : StorageEnv F)

/-- The receipt for the credited bytes, from the first local account that is not the provider. -/
def signReceipt (call : Nat) (provider : Hex) (credited latencyMs : Nat) (now : Int) : ReadDesk F :=
  match s.localKeys.entries.find? fun e => e.1 ≠ provider with
  | none => s
  | some (pub, priv) =>
    let book := (s.readerBooks.get? pub).getD .empty
    let (book, receipt) := book.record (F := F) pub provider credited latencyMs now
    { s with
      readerBooks := s.readerBooks.set pub book
      receipts := s.receipts ++ ((E.signMsg (receiptPayload receipt) priv).map fun signature =>
        ⟨call, credited, receipt, signature⟩).toList }

/-- `creditServingPeer(cid, bytes, latencyMs)`. -/
def creditServingPeer (call : Nat) (cid : Cid) (bytes latencyMs : Nat) (now : Int) : ReadDesk F :=
  match (s.lastServedBy.filter (· ≠ "")).bind s.providerBySmokeAddr with
  | none => s
  | some provider =>
    if provider = "" then s
    else
      let nth := (s.readsPerCid.get? cid).getD 0 + 1
      let s := { s with
        liveness := s.liveness.record provider true now
        readsPerCid := s.readsPerCid.set cid nth }
      let credited := creditedBytes bytes nth
      if credited = 0 then s else s.signReceipt E call provider credited latencyMs now

/-- The caller gets to `creditServingPeer`. -/
def credit (n : Nat) (r : ReadCall) (latencyMs : Nat) (now : Int) : ReadDesk F :=
  match r.stage with
  | .returned _ data =>
    let s := { s with reads := s.reads.set n { r with stage := .credited } }
    s.creditServingPeer E n r.cid data.length latencyMs now
  | _ => s

/-! ## Runs -/

inductive Input where
  | retrieve (cid : Cid) (smokeAddrs : List String)
  | loaded (n : Nat)
  | respond (n : Nat) (peer : String) (data : Bytes)
  | refuse (n : Nat) (peer : String)
  | written (n : Nat) (peer : String)
  | giveUp (n : Nat)
  | resume (n : Nat)
  | credit (n : Nat) (latencyMs : Nat) (now : Int)

/-- What happens to the `n`-th read, if there is one. -/
def onRead (n : Nat) (f : ReadCall → ReadDesk F) : ReadDesk F :=
  match s.reads[n]? with
  | some r => f r
  | none => s

def step : Input → ReadDesk F
  | .retrieve cid smokeAddrs => s.retrieve cid smokeAddrs
  | .loaded n => s.onRead n (s.loaded n)
  | .respond n peer data => s.onRead n fun r => s.respond n r peer data
  | .refuse n peer => s.onRead n fun r => s.refuse n r peer
  | .written n peer => s.onRead n fun r => s.written n r peer
  | .giveUp n => s.onRead n (s.giveUp n)
  | .resume n => s.onRead n (s.resume n)
  | .credit n latencyMs now => s.onRead n fun r => s.credit E n r latencyMs now

/-! ## What is asked -/

omit [JsNumber F] in
/-- The provider's record has this address. -/
def Names (provider : Hex) (peer : String) : Prop :=
  ∃ p ∈ s.ledger.providerLedger.providers.values, p.pub = provider ∧ p.smokeAddr = some peer

omit [JsNumber F] in
/-- A step signs and records nothing, or it credits a read that has returned the bytes of a peer:
the receipt names a provider at that peer's address, for no more than these bytes. -/
def CreditsServer (input : Input) (s' : ReadDesk F) : Prop :=
  (s'.receipts = s.receipts ∧ s'.liveness = s.liveness) ∨
  ∃ n latencyMs now r peer data, input = .credit n latencyMs now ∧ s.reads[n]? = some r ∧
    r.stage = .returned (some peer) data ∧ ∃ new, s'.receipts = s.receipts ++ new ∧
      ∀ e ∈ new, s.Names e.envelope.receipt.provider peer ∧ e.creditedBytes ≤ data.length

/-- Who has served a read that has set `lastServedBy` and that is not credited yet. -/
def ReadCall.uncredited (r : ReadCall) : Option (Option String) :=
  match r.stage with
  | .reading _ => some none
  | .returned source _ => some source
  | _ => none

omit [JsNumber F] in
/-- Whoever sets `lastServedBy` leaves it right for the reads that are not credited yet, and the
peer that it is set to is the one that has won the race. -/
def Undisturbed : Input → Prop
  | .retrieve cid _ => (s.store.getBlock cid).isSome = true →
      ∀ r ∈ s.reads, ∀ source, ReadCall.uncredited r = some source → source = none
  | .resume n => ∀ r peer data, s.reads[n]? = some r → r.stage = .served peer data →
      r.servedBy = some peer ∧
      ∀ other ∈ s.reads, ∀ source, ReadCall.uncredited other = some source → source = some peer
  | _ => True

/-! ## The field between its writes -/

section Steps

omit [JsNumber F]

variable {s : ReadDesk F}

/-- The field names the server of every read that is not credited yet. -/
def Settled (s : ReadDesk F) : Prop :=
  ∀ r ∈ s.reads, ∀ source, ReadCall.uncredited r = some source → s.lastServedBy = source

section

variable (h : Settled s)
include h

theorem settled_set {s' : ReadDesk F} {n : Nat} {r : ReadCall}
    (hreads : s'.reads = s.reads.set n r) (hfield : s'.lastServedBy = s.lastServedBy)
    (hr : ∀ source, ReadCall.uncredited r = some source → s.lastServedBy = source) :
    Settled s' := by
  intro r' hr' source hsource
  rw [hreads] at hr'
  rw [hfield]
  rcases List.mem_or_eq_of_mem_set hr' with hmem | rfl
  · exact h r' hmem source hsource
  · exact hr source hsource

theorem settled_retrieve {cid : Cid} {smokeAddrs : List String}
    (hundisturbed : s.Undisturbed (.retrieve cid smokeAddrs)) :
    Settled (s.retrieve cid smokeAddrs) := by
  unfold retrieve
  split
  · next data hdata =>
      intro r hr source hsource
      rcases List.mem_append.mp hr with hr | hr
      · exact (hundisturbed (by rw [hdata]; rfl) r hr source hsource).symm
      · cases List.mem_singleton.mp hr
        exact Option.some.inj hsource
  · next hnone =>
      intro r hr source hsource
      rcases List.mem_append.mp hr with hr | hr
      · exact h r hr source hsource
      · cases List.mem_singleton.mp hr
        cases hpeers : (s.store.retrievePeers smokeAddrs).isEmpty <;>
          simp [ReadCall.uncredited, hpeers] at hsource

theorem settled_loaded {n : Nat} {r : ReadCall} (hr : r ∈ s.reads) : Settled (s.loaded n r) := by
  unfold loaded
  split
  · next data hstage =>
      refine settled_set h rfl rfl fun source hsource => h r hr source ?_
      simpa [ReadCall.uncredited, hstage] using hsource
  · exact h

theorem settled_respond {n : Nat} {r : ReadCall} (hr : r ∈ s.reads)
    (peer : String) (data : Bytes) : Settled (s.respond n r peer data) := by
  unfold respond
  split
  · exact settled_set h rfl rfl fun source hsource => h r hr source hsource
  · exact h

theorem settled_refuse {n : Nat} {r : ReadCall} (hr : r ∈ s.reads)
    (peer : String) : Settled (s.refuse n r peer) :=
  settled_set h rfl rfl fun source hsource => h r hr source hsource

theorem settled_written {n : Nat} {r : ReadCall} (hr : r ∈ s.reads)
    (peer : String) : Settled (s.written n r peer) := by
  unfold written
  split
  · exact h
  · refine settled_set h rfl rfl fun source hsource => ?_
    by_cases hstage : r.stage = .asking
    · simp [ReadCall.uncredited, hstage] at hsource
    · simp only [hstage, if_false] at hsource
      exact h r hr source hsource

theorem settled_giveUp (n : Nat) (r : ReadCall) : Settled (s.giveUp n r) := by
  unfold giveUp
  split
  · exact settled_set h rfl rfl fun source hsource => by cases hsource
  · exact h

theorem settled_resume {n : Nat} {r : ReadCall} (hr : s.reads[n]? = some r)
    (hundisturbed : s.Undisturbed (.resume n)) : Settled (s.resume n r) := by
  unfold resume
  split
  · next peer data hstage =>
      obtain ⟨hserved, hothers⟩ := hundisturbed r peer data hr hstage
      intro r' hr' source hsource
      rcases List.mem_or_eq_of_mem_set hr' with hmem | rfl
      · rw [hothers r' hmem source hsource]
        exact hserved
      · rw [← Option.some.inj hsource]
        exact hserved
  · exact h

end

end Steps

/-! ## The credit -/

section Credit

variable {s : ReadDesk F} {E}

theorem creditedBytes_le (bytes nth : Nat) : creditedBytes bytes nth ≤ bytes := by
  unfold creditedBytes
  generalize hfull : 2 ^ (nth - 1) = full
  have hpos : 0 < full := hfull ▸ Nat.two_pow_pos _
  rw [Nat.div_le_iff_le_mul_add_pred (by omega)]
  have hle : bytes ≤ full * bytes := Nat.le_mul_of_pos_left bytes hpos
  calc 2 * bytes + full ≤ 2 * (full * bytes) + (2 * full - 1) := by omega
    _ = 2 * full * bytes + (2 * full - 1) := by rw [Nat.mul_assoc]

theorem settled_signReceipt (h : Settled s) (call : Nat) (provider : Hex)
    (credited latencyMs : Nat) (now : Int) :
    Settled (s.signReceipt E call provider credited latencyMs now) := by
  unfold signReceipt
  split
  · exact h
  · exact h

theorem settled_creditServingPeer (h : Settled s) (call : Nat) (cid : Cid)
    (bytes latencyMs : Nat) (now : Int) :
    Settled (s.creditServingPeer E call cid bytes latencyMs now) := by
  unfold creditServingPeer
  split
  · exact h
  · split
    · exact h
    · dsimp only
      split
      · exact h
      · refine settled_signReceipt ?_ _ _ _ _ _
        exact h

theorem settled_credit (h : Settled s) (n : Nat) (r : ReadCall) (latencyMs : Nat) (now : Int) :
    Settled (s.credit E n r latencyMs now) := by
  unfold credit
  split
  · refine settled_creditServingPeer ?_ _ _ _ _ _
    exact settled_set h rfl rfl fun source hsource => by cases hsource
  · exact h

theorem receipts_signReceipt (s : ReadDesk F) (call : Nat) (provider : Hex)
    (credited latencyMs : Nat) (now : Int) :
    ∃ new, (s.signReceipt E call provider credited latencyMs now).receipts = s.receipts ++ new ∧
      ∀ e ∈ new, e.envelope.receipt.provider = provider ∧ e.creditedBytes = credited := by
  unfold signReceipt
  split
  · exact ⟨[], (List.append_nil _).symm, fun e he => by cases he⟩
  · refine ⟨_, rfl, fun e he => ?_⟩
    obtain ⟨signature, -, rfl⟩ := Option.map_eq_some_iff.mp (Option.mem_toList.mp he)
    exact ⟨rfl, rfl⟩

theorem creditServingPeer_local (hfield : s.lastServedBy = none) (call : Nat) (cid : Cid)
    (bytes latencyMs : Nat) (now : Int) :
    s.creditServingPeer E call cid bytes latencyMs now = s := by
  unfold creditServingPeer
  rw [hfield]
  rfl

theorem receipts_creditServingPeer {peer : String} (hfield : s.lastServedBy = some peer)
    (call : Nat) (cid : Cid) (bytes latencyMs : Nat) (now : Int) :
    ∃ new, (s.creditServingPeer E call cid bytes latencyMs now).receipts = s.receipts ++ new ∧
      ∀ e ∈ new, s.Names e.envelope.receipt.provider peer ∧ e.creditedBytes ≤ bytes := by
  have hnothing : ∃ new, s.receipts = s.receipts ++ new ∧
      ∀ e ∈ new, s.Names e.envelope.receipt.provider peer ∧ e.creditedBytes ≤ bytes :=
    ⟨[], (List.append_nil _).symm, fun e he => by cases he⟩
  unfold creditServingPeer
  split
  · exact hnothing
  · next provider hprovider =>
      obtain ⟨peer', hpeer', hfound⟩ := Option.bind_eq_some_iff.mp hprovider
      rw [hfield] at hpeer'
      cases (Option.filter_eq_some_iff.mp hpeer').1
      obtain ⟨p, hp, rfl⟩ := Option.map_eq_some_iff.mp hfound
      have hnames : s.Names p.pub peer :=
        ⟨p, List.mem_of_find?_eq_some hp, rfl, of_decide_eq_true (List.find?_some hp :)⟩
      split
      · exact hnothing
      · dsimp only
        split
        · exact hnothing
        · obtain ⟨new, hnew, hall⟩ := receipts_signReceipt (E := E)
            { s with
              liveness := s.liveness.record p.pub true now
              readsPerCid := s.readsPerCid.set cid ((s.readsPerCid.get? cid).getD 0 + 1) }
            call p.pub (creditedBytes bytes ((s.readsPerCid.get? cid).getD 0 + 1)) latencyMs now
          refine ⟨new, hnew, fun e he => ?_⟩
          obtain ⟨hprov, hcredited⟩ := hall e he
          rw [hprov, hcredited]
          exact ⟨hnames, creditedBytes_le _ _⟩

theorem creditsServer_credit (h : Settled s) {n : Nat} {r : ReadCall}
    (hr : s.reads[n]? = some r) (latencyMs : Nat) (now : Int) :
    s.CreditsServer (.credit n latencyMs now) (s.credit E n r latencyMs now) := by
  unfold credit
  split
  · next source data hstage =>
      have hfield : s.lastServedBy = source :=
        h r (List.mem_of_getElem? hr) source (by simp [ReadCall.uncredited, hstage])
      cases source with
      | none =>
        refine .inl ?_
        dsimp only
        rw [creditServingPeer_local]
        · exact ⟨rfl, rfl⟩
        · exact hfield
      | some peer =>
        refine .inr ⟨n, latencyMs, now, r, peer, data, rfl, hr, hstage, ?_⟩
        exact receipts_creditServingPeer
          (s := { s with reads := s.reads.set n { r with stage := .credited } }) hfield _ _ _ _ _
  · exact .inl ⟨rfl, rfl⟩

/-! ## Any step -/

omit [JsNumber F] in
theorem onRead_cases (s : ReadDesk F) (n : Nat) (f : ReadCall → ReadDesk F) :
    s.onRead n f = s ∨ ∃ r, s.reads[n]? = some r ∧ s.onRead n f = f r := by
  unfold onRead
  cases hr : s.reads[n]? with
  | none => exact .inl rfl
  | some r => exact .inr ⟨r, rfl, rfl⟩

omit [JsNumber F] in
theorem onRead_ind {motive : ReadDesk F → Prop} (s : ReadDesk F) (n : Nat)
    (f : ReadCall → ReadDesk F) (hnone : motive s)
    (hsome : ∀ r, s.reads[n]? = some r → motive (f r)) : motive (s.onRead n f) := by
  rcases onRead_cases s n f with h | ⟨r, hr, h⟩
  · rw [h]
    exact hnone
  · rw [h]
    exact hsome r hr

theorem settled_step (h : Settled s) {input : Input} (hundisturbed : s.Undisturbed input) :
    Settled (s.step E input) := by
  cases input with
  | retrieve cid smokeAddrs => exact settled_retrieve h hundisturbed
  | loaded n => exact onRead_ind s n _ h fun r hr => settled_loaded h (List.mem_of_getElem? hr)
  | respond n peer data =>
    exact onRead_ind s n _ h fun r hr => settled_respond h (List.mem_of_getElem? hr) peer data
  | refuse n peer =>
    exact onRead_ind s n _ h fun r hr => settled_refuse h (List.mem_of_getElem? hr) peer
  | written n peer =>
    exact onRead_ind s n _ h fun r hr => settled_written h (List.mem_of_getElem? hr) peer
  | giveUp n => exact onRead_ind s n _ h fun r _ => settled_giveUp h n r
  | resume n => exact onRead_ind s n _ h fun r hr => settled_resume h hr hundisturbed
  | credit n latencyMs now =>
    exact onRead_ind s n _ h fun r _ => settled_credit h n r latencyMs now

omit [JsNumber F] in
theorem unsigned_retrieve (s : ReadDesk F) (cid : Cid) (smokeAddrs : List String) :
    (s.retrieve cid smokeAddrs).receipts = s.receipts ∧
      (s.retrieve cid smokeAddrs).liveness = s.liveness := by
  unfold retrieve
  split <;> exact ⟨rfl, rfl⟩

omit [JsNumber F] in
theorem unsigned_onRead (s : ReadDesk F) (n : Nat) (f : ReadCall → ReadDesk F)
    (hf : ∀ r, (f r).receipts = s.receipts ∧ (f r).liveness = s.liveness) :
    (s.onRead n f).receipts = s.receipts ∧ (s.onRead n f).liveness = s.liveness :=
  onRead_ind (motive := fun s' => s'.receipts = s.receipts ∧ s'.liveness = s.liveness) s n f
    ⟨rfl, rfl⟩ fun r _ => hf r

theorem creditsServer_step (h : Settled s) (input : Input) :
    s.CreditsServer input (s.step E input) := by
  cases input with
  | retrieve cid smokeAddrs => exact .inl (unsigned_retrieve s cid smokeAddrs)
  | loaded n =>
    refine .inl (unsigned_onRead s n _ fun r => ?_)
    unfold loaded
    split <;> exact ⟨rfl, rfl⟩
  | respond n peer data =>
    refine .inl (unsigned_onRead s n _ fun r => ?_)
    unfold respond
    split <;> exact ⟨rfl, rfl⟩
  | refuse n peer => exact .inl (unsigned_onRead s n _ fun r => ⟨rfl, rfl⟩)
  | written n peer =>
    refine .inl (unsigned_onRead s n _ fun r => ?_)
    unfold written
    split <;> exact ⟨rfl, rfl⟩
  | giveUp n =>
    refine .inl (unsigned_onRead s n _ fun r => ?_)
    unfold giveUp
    split <;> exact ⟨rfl, rfl⟩
  | resume n =>
    refine .inl (unsigned_onRead s n _ fun r => ?_)
    unfold resume
    split <;> exact ⟨rfl, rfl⟩
  | credit n latencyMs now =>
    exact onRead_ind (motive := s.CreditsServer (.credit n latencyMs now)) s n _
      (.inl ⟨rfl, rfl⟩) fun r hr => creditsServer_credit h hr latencyMs now

end Credit

omit [JsNumber F] in
theorem settled_idle (m : StorageManager F) (liveness : CustodyLiveness)
    (lastServedBy : Option String) (readsPerCid : JsMap Cid Nat)
    (readerBooks : JsMap Hex ReaderReceiptBook) :
    Settled (idle m liveness lastServedBy readsPerCid readerBooks) :=
  fun r hr => by cases hr

/-- In every run in which the field is undisturbed, each credit goes to the peer that served the
read. -/
theorem credits_server (m : StorageManager F) (liveness : CustodyLiveness)
    (lastServedBy : Option String) (readsPerCid : JsMap Cid Nat)
    (readerBooks : JsMap Hex ReaderReceiptBook) (inputs : List Input)
    (h : Run.StepsMeet (fun s input => s.step E input) (fun s input => s.Undisturbed input)
      (idle m liveness lastServedBy readsPerCid readerBooks) inputs) :
    Run.EveryStep (fun s input => s.step E input) (fun s input s' => s.CreditsServer input s')
      (idle m liveness lastServedBy readsPerCid readerBooks) inputs :=
  Run.everyStep_of_invariant (I := Settled)
    (fun _ _ hs hundisturbed => settled_step hs hundisturbed)
    (fun _ _ hs _ => creditsServer_step hs _) (settled_idle m liveness lastServedBy _ _) h

/-! ## Two providers race -/

namespace Sample

open CustodyManager.Sample (holder)
open StorageManager.Sample (env appKey)

/-- The account `aa` reads here; `bb` and `cc` are registered providers. -/
def desk : StorageManager Rat :=
  let m := StorageManager.Sample.idle "desk" (JsMap.empty.set "aa" appKey)
  let providers := (JsMap.empty.set "bb" (holder "bb" "rack")).set "cc" (holder "cc" "shed")
  { m with ledger := { m.ledger with providerLedger := { ProviderLedger.new with providers } } }

def reader : ReadDesk Rat := idle desk CustodyLiveness.new none JsMap.empty JsMap.empty

/-- Only `bb` answers. -/
def answered : List Input :=
  [.retrieve "cid" ["bb.smoke", "cc.smoke"], .respond 0 "bb.smoke" [1], .refuse 0 "cc.smoke",
    .written 0 "bb.smoke"]

/-- The answer of `cc` comes in while that of `bb` is being written. -/
def race : List Input :=
  [.retrieve "cid" ["bb.smoke", "cc.smoke"], .respond 0 "bb.smoke" [1],
    .respond 0 "cc.smoke" [1], .written 0 "bb.smoke", .resume 0]

def afterRace : ReadDesk Rat := Run.final (fun s input => s.step env input) reader race

end Sample

section Examples

open ReadDesk.Sample
open StorageManager.Sample (env appKey)

/-- The one peer that answers is credited. -/
theorem credits_server_alone :
    Run.EveryStep (fun s input => s.step env input) (fun s input s' => s.CreditsServer input s')
      reader (answered ++ [.resume 0, .credit 0 5 7]) := by
  refine credits_server env desk CustodyLiveness.new none JsMap.empty JsMap.empty _ ?_
  refine ⟨fun hlocal => ?_, trivial, trivial, trivial, ?_, trivial, trivial⟩
  · cases hlocal
  · have hreads : (Run.final (fun s input => s.step env input) reader answered).reads =
        [⟨"cid", .served "bb.smoke" [1], [], [], some "bb.smoke"⟩] := by decide +kernel
    intro r peer data hr hstage
    change (Run.final (fun s input => s.step env input) reader answered).reads[0]? = _ at hr
    rw [hreads] at hr
    cases hr
    cases hstage
    refine ⟨rfl, fun other hother source hsource => ?_⟩
    change other ∈ (Run.final (fun s input => s.step env input) reader answered).reads at hother
    rw [hreads] at hother
    cases List.mem_singleton.mp hother
    cases hsource

/-- The receipt for a read that `bb` has won is written out to `cc`. -/
theorem loser_is_credited :
    ¬ ∀ (E : StorageEnv Rat) (m : StorageManager Rat) (liveness : CustodyLiveness)
      (lastServedBy : Option String) (readsPerCid : JsMap Cid Nat)
      (readerBooks : JsMap Hex ReaderReceiptBook) (inputs : List Input),
      Run.EveryStep (fun s input => s.step E input)
        (fun s input s' => s.CreditsServer input s')
        (idle m liveness lastServedBy readsPerCid readerBooks) inputs := by
  intro hall
  have hrun : Run.EveryStep (fun s input => s.step env input)
      (fun s input s' => s.CreditsServer input s') reader (race ++ [.credit 0 5 7]) :=
    hall env desk CustodyLiveness.new none JsMap.empty JsMap.empty _
  have hlast : afterRace.CreditsServer (.credit 0 5 7) (afterRace.step env (.credit 0 5 7)) :=
    hrun.last
  have hbefore : afterRace.receipts.length = 0 := by decide +kernel
  have hafter : (afterRace.step env (.credit 0 5 7)).receipts.map
      (fun e => e.envelope.receipt.provider) = ["cc"] := by decide +kernel
  have hbefore := List.length_eq_zero_iff.mp hbefore
  rcases hlast with hsame | ⟨n, latencyMs, now, r, peer, data, hinput, hr, hstage, new, hnew, hall⟩
  · rw [hsame.1, hbefore] at hafter
    cases hafter
  · cases hinput
    have hwinner : (afterRace.reads[0]?.map ReadCall.stage) =
        some (.returned (some "bb.smoke") [1]) := by decide +kernel
    rw [hr, Option.map_some, hstage] at hwinner
    cases hwinner
    rw [hbefore, List.nil_append] at hnew
    rw [hnew] at hafter
    obtain ⟨e, he, hprovider⟩ := List.mem_map.mp (hafter ▸ List.mem_singleton_self "cc")
    obtain ⟨⟨p, hp, hpub, haddr⟩, -⟩ := hall e he
    have hothers : (afterRace.ledger.providerLedger.providers.values.all fun p =>
        !(p.pub == "cc" && p.smokeAddr == some "bb.smoke")) = true := by decide +kernel
    have hp' := List.all_eq_true.mp hothers p hp
    rw [hpub, hprovider, haddr] at hp'
    cases hp'

end Examples

end ReadDesk

end NeuronWeb
