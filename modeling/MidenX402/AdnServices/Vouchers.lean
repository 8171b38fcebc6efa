import MidenX402.AdnServices.Merchant

/-!
# The vouchers a merchant serves and settles

The handler stores whatever voucher arrives and checks none of them: a payment that is answered
without a settlement is worth what the voucher in it is worth, and the voucher that is settled is the
one that arrived last.
-/

namespace MidenX402.AdnServices
open Masm AgentDebitNote Rust

section Collect
variable (P : Protocol) {F E : Falcon} (C : Codec F E)

/-- The user key that the storage of a note starts with. -/
def userKey (n : Note) : Word :=
  ⟨n.recipient.storage.getD 0 0,n.recipient.storage.getD 1 0,n.recipient.storage.getD 2 0,
    n.recipient.storage.getD 3 0⟩

def decodeSignature (hex : String) : Except String F.Signature := do
  let bytes ← C.hexDecode hex
  C.readSignature bytes

/-- The voucher can be collected from the note in the file: its signature verifies for the note, the
merchant and its amount, and the amount is at least `least` and covered by the note. -/
def Collectable (merchantId : String) (noteFile : Option String) (least : ℕ) (v : PaymentRequest) :
    Prop :=
  ∃ hex n id pk sig, noteFile = some hex ∧ decodeNoteFile C hex = .ok n ∧
    C.accountIdFromHex merchantId = .ok id ∧ F.toCommitment pk = userKey n ∧
    decodeSignature C v.signatureHex = .ok sig ∧
    verifyVoucher P F pk n.recipient.serialNum id v.cumulativeAmount sig = true ∧
    least ≤ v.cumulativeAmount.toNat ∧ v.cumulativeAmount.toNat ≤ (noteBalance P n).toNat

/-- The stored voucher is worth all payments answered with success in the current batch. -/
def Merchant.HoldsCollectable (m : Merchant) : Prop :=
  ∃ v, m.inner.latestPayment = some v ∧
    Collectable P C m.inner.merchantId m.inner.currentNoteFileHex
      (m.inner.amountPerRequest.toNat * m.served) v

end Collect

/-- In the run the payment reaches the merchant in the state `m`. -/
def Merchant.PaysIn (start : Merchant) (actions : List MerchantAction) (m : Merchant)
    (payment : PaymentRequest) : Prop :=
  ∃ before after, actions = before ++ .pay payment :: after ∧ m = start.run before

/-- The handler answers the payment with success and asks for no settlement. -/
def Merchant.ServesUnsettled (m : Merchant) (payment : PaymentRequest) : Prop :=
  ∃ status resp, (m.inner.receive payment).2 = .answer status resp ∧ resp.success = true

theorem Merchant.servesUnsettled_iff (m : Merchant) (payment : PaymentRequest) :
    m.ServesUnsettled payment ↔ m.inner.batchCount + 1 < m.inner.settleAfter := by
  rw [Merchant.ServesUnsettled]
  by_cases hlt : m.inner.batchCount + 1 < m.inner.settleAfter
  · simp [MerchantInner.receive_of_lt _ _ hlt,hlt]
  · simp [MerchantInner.receive_of_le _ _ (by omega : m.inner.settleAfter ≤ _),hlt]

section Served
variable (P : Protocol) {F E : Falcon} (C : Codec F E)

theorem Merchant.holdsCollectable_pay_iff {m : Merchant} (hm : m.Counts) {payment : PaymentRequest}
    (hserves : m.ServesUnsettled payment) :
    (m.pay payment).HoldsCollectable P C ↔
      Collectable P C m.inner.merchantId (m.inner.noteFileAfter payment)
        (m.inner.amountPerRequest.toNat * (m.inner.batchCount + 1)) payment := by
  have hlt := (m.servesUnsettled_iff payment).mp hserves
  have hserved := hm (by omega)
  simp [Merchant.HoldsCollectable,Merchant.pay_of_lt hlt,MerchantInner.receive_of_lt _ _ hlt,hserved]

/-- In every run of the merchant: the voucher stored by each payment that is served without a
settlement is worth the batch so far, exactly if each payment that leaves the batch room for another
brings a voucher that verifies for the note then current and is worth one more request than were
counted before. -/
theorem served_collectable_iff (facilitatorUrl merchantId : String) (amountPerRequest : UInt64)
    (settleAfter : ℕ) (actions : List MerchantAction) :
    let start := Merchant.start (.start facilitatorUrl merchantId amountPerRequest settleAfter)
    (∀ m payment, start.PaysIn actions m payment → m.ServesUnsettled payment →
      (m.pay payment).HoldsCollectable P C) ↔
    (∀ m payment, start.PaysIn actions m payment → m.inner.batchCount + 1 < m.inner.settleAfter →
      Collectable P C m.inner.merchantId (m.inner.noteFileAfter payment)
        (m.inner.amountPerRequest.toNat * (m.inner.batchCount + 1)) payment) := by
  intro start
  have hcounts : ∀ m payment, start.PaysIn actions m payment → m.Counts := by
    rintro m payment ⟨before,after,-,rfl⟩
    exact Merchant.run_counts (fun _ => rfl) before
  constructor
  · intro h m payment hpays hroom
    have hserves := (m.servesUnsettled_iff payment).mpr hroom
    exact (Merchant.holdsCollectable_pay_iff P C (hcounts m payment hpays) hserves).mp
      (h m payment hpays hserves)
  · intro h m payment hpays hserves
    apply (Merchant.holdsCollectable_pay_iff P C (hcounts m payment hpays) hserves).mpr
    exact h m payment hpays ((m.servesUnsettled_iff payment).mp hserves)

end Served

/-- The first payment of the sample agent, for an amount of its own choice. -/
def samplePayment (noteFile : Option String) (c : UInt64) : PaymentRequest :=
  ⟨noteFile,secretKeyHex sampleCodec sampleSk,formatSerialNum sampleNote.recipient.serialNum,c,
    signatureHex sampleCodec (signVoucher sampleProtocol referenceFalcon (.ofNats 7 8 9 10 : Word)
      sampleNote.recipient.serialNum sampleMerchant c)⟩

def sampleStart (settleAfter : ℕ) : Merchant :=
  .start (.start "http://localhost:7002" "0x7bfb0f38b0fafa103f86a805594170" 1000 settleAfter)

/-- A voucher for nothing is served like any other. -/
theorem served_for_nothing :
    let payment := samplePayment (some (noteFileHex sampleCodec sampleNote sampleProof)) 0
    (sampleStart 5).PaysIn [.pay payment] (sampleStart 5) payment ∧
    (sampleStart 5).ServesUnsettled payment ∧
    ¬((sampleStart 5).pay payment).HoldsCollectable sampleProtocol sampleCodec := by
  intro payment
  have hserves : (sampleStart 5).ServesUnsettled payment :=
    ((sampleStart 5).servesUnsettled_iff payment).mpr (by decide)
  refine ⟨⟨[],[],rfl,rfl⟩,hserves,?_⟩
  rw [Merchant.holdsCollectable_pay_iff _ _ (fun _ => rfl) hserves]
  rintro ⟨hex,n,id,pk,sig,-,-,-,-,-,-,hleast,-⟩
  revert hleast
  decide

section Settled

/-- The largest amount among the payments for a note. -/
def largestReceived (vs : List PaymentRequest) (serialNum : SerialStrings) : ℕ :=
  ((vs.filter fun v => sameNote v.serialNum serialNum).map fun v => v.cumulativeAmount.toNat).foldr
    max 0

theorem largestReceived_le_iff (vs : List PaymentRequest) (serialNum : SerialStrings) (b : ℕ) :
    largestReceived vs serialNum ≤ b ↔
      ∀ v ∈ vs, sameNote v.serialNum serialNum = true → v.cumulativeAmount.toNat ≤ b := by
  rw [largestReceived]
  constructor
  · intro h v hv hsame
    refine (List.le_max_of_le' 0 ?_ le_rfl).trans h
    exact List.mem_map.mpr ⟨v,List.mem_filter.mpr ⟨hv,hsame⟩,rfl⟩
  · intro h
    apply List.max_le_of_forall_le
    simpa only [List.forall_mem_map,List.mem_filter,and_imp] using h

/-- The last voucher for a note is the largest exactly if none before it is larger. -/
theorem largestReceived_concat_iff (vs : List PaymentRequest) (v : PaymentRequest) :
    v.cumulativeAmount.toNat = largestReceived (vs ++ [v]) v.serialNum ↔
      ∀ u ∈ vs, sameNote u.serialNum v.serialNum = true →
        u.cumulativeAmount.toNat ≤ v.cumulativeAmount.toNat := by
  have hself : v.cumulativeAmount.toNat ≤ largestReceived (vs ++ [v]) v.serialNum :=
    (largestReceived_le_iff _ _ _).mp le_rfl v (by simp) (by simp [sameNote])
  constructor
  · intro h u hu
    exact (largestReceived_le_iff _ _ _).mp h.ge u (by simp [hu])
  · intro h
    apply le_antisymm hself
    rw [largestReceived_le_iff]
    intro u hu hsame
    rcases List.mem_append.mp hu with hu | hu
    · exact h u hu hsame
    · exact List.mem_singleton.mp hu ▸ le_rfl

/-- The payments of a run, in the order in which they reach the handler. -/
def payments (actions : List MerchantAction) : List PaymentRequest :=
  actions.filterMap fun a => match a with
    | .pay payment => some payment
    | .reply _ _ => none

theorem Merchant.received_run (m : Merchant) (actions : List MerchantAction) :
    (m.run actions).received.Sublist (m.received ++ payments actions) := by
  induction actions generalizing m with
  | nil => simp [Merchant.run,payments]
  | cons a rest ih =>
    have hrest := ih (m.step a)
    cases a with
    | pay payment =>
      have hreceived : (m.step (.pay payment)).received = m.received ++ [payment] := by
        by_cases hlt : m.inner.batchCount + 1 < m.inner.settleAfter
        · simp [Merchant.step,Merchant.pay_of_lt hlt]
        · simp [Merchant.step,Merchant.pay_of_le (by omega : m.inner.settleAfter ≤ _)]
      rw [hreceived,List.append_assoc] at hrest
      exact hrest
    | reply request reply =>
      have hreceived : (m.step (.reply request reply)).received.Sublist m.received := by
        rcases m.reply_cases request reply with ⟨-,h⟩ | ⟨req,-,⟨-,h⟩ | ⟨resp,-,-,h⟩⟩ <;>
          simp [Merchant.step,h]
      exact hrest.trans (hreceived.append (List.Sublist.refl _))

/-- In every run of the merchant: a settlement is asked for with the voucher that arrived last, and
for the largest amount received for its note since that note was settled exactly if no larger voucher
for the note has arrived before; which is always so when the vouchers for each note arrive in the
order of their amounts. -/
theorem settles_latest (s : MerchantInner) (actions : List MerchantAction) :
    (∀ m payment req, (Merchant.start s).PaysIn actions m payment →
      (m.inner.receive payment).2 = .settle req →
      (m.pay payment).received.getLast? = some payment ∧ req.serialNum = payment.serialNum ∧
      req.cumulativeAmount = payment.cumulativeAmount ∧
      (req.cumulativeAmount.toNat = largestReceived (m.pay payment).received req.serialNum ↔
        ∀ v ∈ m.received, sameNote v.serialNum req.serialNum = true →
          v.cumulativeAmount.toNat ≤ req.cumulativeAmount.toNat)) ∧
    ((payments actions).Pairwise (fun u v => sameNote u.serialNum v.serialNum = true →
        u.cumulativeAmount.toNat ≤ v.cumulativeAmount.toNat) →
      ∀ m payment req, (Merchant.start s).PaysIn actions m payment →
        (m.inner.receive payment).2 = .settle req →
        req.cumulativeAmount.toNat = largestReceived (m.pay payment).received req.serialNum) := by
  have hstep : ∀ (m : Merchant) (payment : PaymentRequest) req,
      (m.inner.receive payment).2 = .settle req →
      (m.pay payment).received = m.received ++ [payment] ∧ req.serialNum = payment.serialNum ∧
      req.cumulativeAmount = payment.cumulativeAmount := by
    intro m payment req hreq
    obtain ⟨hle,rfl⟩ := MerchantInner.receive_eq_settle hreq
    simp [Merchant.pay_of_le hle]
  constructor
  · rintro m payment req - hreq
    obtain ⟨hreceived,hserial,hamount⟩ := hstep m payment req hreq
    refine ⟨by simp [hreceived],hserial,hamount,?_⟩
    rw [hreceived,hserial,hamount]
    exact largestReceived_concat_iff m.received payment
  · rintro hordered m payment req ⟨before,after,rfl,rfl⟩ hreq
    obtain ⟨hreceived,hserial,hamount⟩ := hstep _ payment req hreq
    rw [hreceived,hserial,hamount,largestReceived_concat_iff]
    intro v hv
    have hsub := (Merchant.start s).received_run before
    have hpays : payments (before ++ .pay payment :: after) =
        payments before ++ payment :: payments after := by
      simp [payments]
    rw [hpays,List.pairwise_append] at hordered
    exact hordered.2.2 v (by simpa [Merchant.start] using hsub.subset hv) payment
      List.mem_cons_self

/-- Two vouchers for one note, the smaller one arriving second: it is the one that is settled. -/
theorem smaller_voucher_settled :
    let first := samplePayment (some (noteFileHex sampleCodec sampleNote sampleProof)) 2000
    let second := samplePayment none 1000
    let m := (sampleStart 2).run [.pay first]
    (sampleStart 2).PaysIn [.pay first,.pay second] m second ∧
    (∃ req, (m.inner.receive second).2 = .settle req ∧ req.cumulativeAmount = 1000 ∧
      req.cumulativeAmount.toNat ≠ largestReceived (m.pay second).received req.serialNum) := by
  intro first second m
  have hle : m.inner.settleAfter ≤ m.inner.batchCount + 1 := by decide
  refine ⟨⟨[.pay first],[],rfl,rfl⟩,_,congrArg Prod.snd (MerchantInner.receive_of_le _ _ hle),rfl,?_⟩
  intro heq
  rw [Merchant.pay_of_le hle] at heq
  have hfirst : m.received = [first] := by
    have hlt : (sampleStart 2).inner.batchCount + 1 < (sampleStart 2).inner.settleAfter := by decide
    change ((sampleStart 2).pay first).received = _
    rw [Merchant.pay_of_lt hlt]
    rfl
  have hlarger := (largestReceived_concat_iff m.received second).mp heq first (by simp [hfirst])
    (by simp [sameNote,first,second,samplePayment])
  revert hlarger
  decide

end Settled

end MidenX402.AdnServices
