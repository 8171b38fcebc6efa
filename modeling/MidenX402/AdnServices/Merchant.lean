import MidenX402.AdnServices.Reference

/-!
# The merchant's payment handler

`handle_pay` runs under one lock up to the point where it asks for a settlement, and takes the lock
again when the settlement has succeeded.  In between any number of other requests may be handled and
other settlements may complete.
-/

namespace MidenX402.AdnServices
open Masm AgentDebitNote Rust

inductive StatusCode where
  | ok
  | paymentRequired
  | badGateway
deriving DecidableEq

structure MerchantInner where
  facilitatorUrl : String
  merchantId : String
  amountPerRequest : UInt64
  settleAfter : ℕ
  /-- requests since the last settlement -/
  batchCount : ℕ
  latestPayment : Option PaymentRequest
  currentNoteFileHex : Option String

/-- The merchant as it is started. -/
def MerchantInner.start (facilitatorUrl merchantId : String) (amountPerRequest : UInt64)
    (settleAfter : ℕ) : MerchantInner :=
  ⟨facilitatorUrl,merchantId,amountPerRequest,settleAfter,0,none,none⟩

/-- How the first critical section ends: with the response, or with a settlement to ask for. -/
inductive Received where
  | answer (status : StatusCode) (resp : PaymentResponse)
  | settle (req : SettleRequest)

/-- The handler up to the release of the lock. -/
def MerchantInner.receive (s : MerchantInner) (payment : PaymentRequest) :
    MerchantInner × Received :=
  let batchCount := s.batchCount + 1
  let noteFileHex := if payment.noteFileHex.isSome then payment.noteFileHex else s.currentNoteFileHex
  let s := { s with
    batchCount := batchCount
    currentNoteFileHex := noteFileHex
    latestPayment := some payment }
  if s.settleAfter ≤ batchCount then
    ({ s with latestPayment := none },.settle ⟨noteFileHex.getD "",payment.agentSkHex,
      payment.serialNum,payment.cumulativeAmount,s.merchantId⟩)
  else
    (s,.answer .ok ⟨true,some ("premium content (request #" ++ toString batchCount ++ ")"),none,none,
      none⟩)

/-- What comes back from the facilitator's endpoint. -/
inductive SettleReply where
  | sendError (error : String)
  | parseError (error : String)
  | response (resp : SettleResponse)

def SettleReply.success : SettleReply → Bool
  | .response resp => resp.success
  | _ => false

/-- The handler after the settlement: the lock is taken again only on success. -/
def MerchantInner.complete (s : MerchantInner) :
    SettleReply → MerchantInner × StatusCode × PaymentResponse
  | .sendError e => (s,.badGateway,⟨false,none,some ("facilitator: " ++ e),none,none⟩)
  | .parseError e => (s,.badGateway,⟨false,none,some ("parse: " ++ e),none,none⟩)
  | .response resp =>
    if resp.success then
      ({ s with
          currentNoteFileHex :=
            if resp.remainderNoteFileHex.isSome then resp.remainderNoteFileHex
            else s.currentNoteFileHex
          batchCount := 0 },
        .ok,⟨true,some "premium content (after settlement)",none,resp.newSerialNum,some true⟩)
    else (s,.paymentRequired,⟨false,none,resp.error,none,none⟩)

/-- The merchant among its requests.  The last two fields only keep a record: the payments received
for each note since it was settled, and the number of payments answered with success since the last
settlement of any note. -/
structure Merchant where
  inner : MerchantInner
  /-- settlements under way, under the number of the request that asked for them -/
  inFlight : List (ℕ × SettleRequest)
  requests : ℕ
  received : List PaymentRequest
  served : ℕ

def Merchant.start (s : MerchantInner) : Merchant := ⟨s,[],0,[],0⟩

inductive MerchantAction where
  | pay (payment : PaymentRequest)
  | reply (request : ℕ) (reply : SettleReply)

/-- Two serial numbers are those of one note. -/
def sameNote (a b : SerialStrings) : Bool := parseSerialNum a = parseSerialNum b

def Merchant.pay (m : Merchant) (payment : PaymentRequest) : Merchant :=
  let m := { m with requests := m.requests + 1, received := m.received ++ [payment] }
  match m.inner.receive payment with
  | (inner,.answer _ _) => { m with inner := inner, served := m.served + 1 }
  | (inner,.settle req) => { m with
      inner := inner
      inFlight := m.inFlight ++ [(m.requests - 1,req)] }

def Merchant.reply (m : Merchant) (request : ℕ) (reply : SettleReply) : Merchant :=
  match m.inFlight.lookup request with
  | none => m
  | some req =>
    let m := { m with
      inner := (m.inner.complete reply).1
      inFlight := m.inFlight.filter fun q => q.1 ≠ request }
    if reply.success then
      { m with
        received := m.received.filter fun v => !sameNote v.serialNum req.serialNum
        served := 0 }
    else m

def Merchant.step (m : Merchant) : MerchantAction → Merchant
  | .pay payment => m.pay payment
  | .reply request reply => m.reply request reply

def Merchant.run (m : Merchant) (actions : List MerchantAction) : Merchant :=
  actions.foldl Merchant.step m

section Receive
variable (s : MerchantInner) (payment : PaymentRequest)

/-- The note file that is current once the payment has been stored. -/
def MerchantInner.noteFileAfter : Option String :=
  if payment.noteFileHex.isSome then payment.noteFileHex else s.currentNoteFileHex

theorem MerchantInner.receive_of_le (h : s.settleAfter ≤ s.batchCount + 1) :
    s.receive payment =
      ({ s with
          batchCount := s.batchCount + 1
          currentNoteFileHex := s.noteFileAfter payment
          latestPayment := none },
        .settle ⟨(s.noteFileAfter payment).getD "",payment.agentSkHex,payment.serialNum,
          payment.cumulativeAmount,s.merchantId⟩) :=
  if_pos h

theorem MerchantInner.receive_of_lt (h : s.batchCount + 1 < s.settleAfter) :
    s.receive payment =
      ({ s with
          batchCount := s.batchCount + 1
          currentNoteFileHex := s.noteFileAfter payment
          latestPayment := some payment },
        .answer .ok ⟨true,some ("premium content (request #" ++ toString (s.batchCount + 1) ++ ")"),
          none,none,none⟩) :=
  if_neg (by simpa using h)

/-- A settlement is asked for only when the batch is full, and for the payment that fills it. -/
theorem MerchantInner.receive_eq_settle {s : MerchantInner} {payment : PaymentRequest}
    {req : SettleRequest} (h : (s.receive payment).2 = .settle req) :
    s.settleAfter ≤ s.batchCount + 1 ∧
      req = ⟨(s.noteFileAfter payment).getD "",payment.agentSkHex,payment.serialNum,
        payment.cumulativeAmount,s.merchantId⟩ := by
  by_cases hlt : s.batchCount + 1 < s.settleAfter
  · rw [MerchantInner.receive_of_lt _ _ hlt] at h
    cases h
  · have hle : s.settleAfter ≤ s.batchCount + 1 := by omega
    rw [MerchantInner.receive_of_le _ _ hle] at h
    cases h
    exact ⟨hle,rfl⟩

theorem MerchantInner.complete_of_not_success {reply : SettleReply} (h : reply.success = false) :
    (s.complete reply).1 = s := by
  cases reply with
  | response resp =>
    have hs : resp.success = false := h
    simp [MerchantInner.complete,hs]
  | _ => rfl

end Receive

namespace Merchant
variable {m : Merchant} {payment : PaymentRequest}

theorem pay_of_le (h : m.inner.settleAfter ≤ m.inner.batchCount + 1) :
    m.pay payment =
      { inner := (m.inner.receive payment).1
        inFlight := m.inFlight ++ [(m.requests,⟨(m.inner.noteFileAfter payment).getD "",
          payment.agentSkHex,payment.serialNum,payment.cumulativeAmount,m.inner.merchantId⟩)]
        requests := m.requests + 1
        received := m.received ++ [payment]
        served := m.served } := by
  simp [Merchant.pay,MerchantInner.receive_of_le _ _ h]

theorem pay_of_lt (h : m.inner.batchCount + 1 < m.inner.settleAfter) :
    m.pay payment =
      { inner := (m.inner.receive payment).1
        inFlight := m.inFlight
        requests := m.requests + 1
        received := m.received ++ [payment]
        served := m.served + 1 } := by
  simp [Merchant.pay,MerchantInner.receive_of_lt _ _ h]

/-- A reply to nothing changes nothing, a failed settlement is only forgotten, and a successful one
starts the next batch on the remainder. -/
theorem reply_cases (m : Merchant) (request : ℕ) (reply : SettleReply) :
    (m.inFlight.lookup request = none ∧ m.reply request reply = m) ∨
    ∃ req, m.inFlight.lookup request = some req ∧
      ((reply.success = false ∧ m.reply request reply =
          { m with inFlight := m.inFlight.filter fun q => q.1 ≠ request }) ∨
        ∃ resp, reply = .response resp ∧ resp.success = true ∧ m.reply request reply =
          { m with
            inner := { m.inner with
              currentNoteFileHex :=
                if resp.remainderNoteFileHex.isSome then resp.remainderNoteFileHex
                else m.inner.currentNoteFileHex
              batchCount := 0 }
            inFlight := m.inFlight.filter fun q => q.1 ≠ request
            received := m.received.filter fun v => !sameNote v.serialNum req.serialNum
            served := 0 }) := by
  rw [Merchant.reply]
  cases hreq : m.inFlight.lookup request with
  | none => exact Or.inl ⟨rfl,rfl⟩
  | some req =>
    refine Or.inr ⟨req,rfl,?_⟩
    cases hs : reply.success with
    | false => exact Or.inl ⟨rfl,by simp [MerchantInner.complete_of_not_success _ hs]⟩
    | true =>
      cases reply with
      | response resp =>
        have hsuccess : resp.success = true := hs
        exact Or.inr ⟨resp,rfl,hsuccess,by simp [MerchantInner.complete,hsuccess]⟩
      | sendError e => cases hs
      | parseError e => cases hs

/-- The merchant's settings never change. -/
theorem step_settings (m : Merchant) (a : MerchantAction) :
    (m.step a).inner.settleAfter = m.inner.settleAfter ∧
    (m.step a).inner.amountPerRequest = m.inner.amountPerRequest ∧
    (m.step a).inner.merchantId = m.inner.merchantId := by
  cases a with
  | pay payment =>
    by_cases hlt : m.inner.batchCount + 1 < m.inner.settleAfter
    · simp [Merchant.step,pay_of_lt hlt,MerchantInner.receive_of_lt _ _ hlt]
    · have hle : m.inner.settleAfter ≤ m.inner.batchCount + 1 := by omega
      simp [Merchant.step,pay_of_le hle,MerchantInner.receive_of_le _ _ hle]
  | reply request reply =>
    rcases m.reply_cases request reply with ⟨-,h⟩ | ⟨req,-,⟨-,h⟩ | ⟨resp,-,-,h⟩⟩ <;>
      simp [Merchant.step,h]

/-- Until the batch is full, every payment since the last settlement was answered with success. -/
def Counts (m : Merchant) : Prop :=
  m.inner.batchCount < m.inner.settleAfter → m.served = m.inner.batchCount

theorem step_counts (hm : m.Counts) (a : MerchantAction) : (m.step a).Counts := by
  intro hless
  rw [(m.step_settings a).1] at hless
  cases a with
  | pay payment =>
    simp only [Merchant.step] at hless ⊢
    by_cases hlt : m.inner.batchCount + 1 < m.inner.settleAfter
    · simp only [pay_of_lt hlt,MerchantInner.receive_of_lt _ _ hlt]
      rw [hm (by omega)]
    · have hle : m.inner.settleAfter ≤ m.inner.batchCount + 1 := by omega
      simp only [pay_of_le hle,MerchantInner.receive_of_le _ _ hle] at hless
      omega
  | reply request reply =>
    simp only [Merchant.step] at hless ⊢
    rcases m.reply_cases request reply with ⟨-,h⟩ | ⟨req,-,⟨-,h⟩ | ⟨resp,-,-,h⟩⟩
    · rw [h] at hless ⊢
      exact hm hless
    · rw [h] at hless ⊢
      exact hm hless
    · rw [h]

theorem run_counts (hm : m.Counts) (actions : List MerchantAction) : (m.run actions).Counts := by
  induction actions generalizing m with
  | nil => exact hm
  | cons a rest ih => exact ih (step_counts hm a)

end Merchant

end MidenX402.AdnServices
